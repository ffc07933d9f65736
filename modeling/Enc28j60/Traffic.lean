import Enc28j60.Delivery
import Enc28j60.Sending

namespace Enc28j60.Traffic

open Interaction RegisterMap SpiSlave Port LowLayer Interface Access Banking DataSheet Transfers
open Quiet Boot Operation Procedures CircularMemory Enc28j60.Ring Reception Delivery Transmission Integrity
open Sending

variable {E : Type} {ev : E → Chip → Chip} {w : Watch} {tot : Prop} {si : Silicon} {c : Chip}
  {d : Enc28j60T} {s : Bus Chip} {gone : List Frame} {t : Side} {X : Chip → Prop} {v p n : Word}
  {buf : ℤ → Byte} {m : Byte} {lo : ℕ} {k : Call}

section Unknown

/-- The chip's transmit side is what `f` makes of `t`, or of some other side where arrivals may have
changed what is read. -/
def Roughly (lo : ℕ) (X : Chip → Prop) (m : Byte) (t : Side) (f : Side → Side) (c : Chip) : Prop :=
  ∃ t', (lo = 0 → t' = t) ∧ Outgoing lo X m (f t') c

theorem Roughly.workable {f : Side → Side} (hev : Acts si ev) (hX : Beside si ev lo X)
    (hw : ∀ c, w.always c) : Workable w ev (Roughly lo X 0x04 t f) := by
  refine ⟨fun e c h ↦ ?_, fun c h ↦ ?_, fun c b seen h ↦ ?_, fun c _ ↦ hw c⟩
  · obtain ⟨t', ht, h⟩ := h
    exact ⟨t', ht, (Outgoing.workable hev hX hw).keeps e c h⟩
  · obtain ⟨t', ht, h⟩ := h
    exact (Outgoing.workable hev hX hw).idle c h
  · obtain ⟨t', ht, h⟩ := h
    exact ⟨t', ht, (Outgoing.workable hev hX hw).reseat c b seen h⟩

theorem Roughly.sends (hev : Acts si ev) (hX : Beside si ev lo X) (hw : ∀ c, w.always c) (hv : Fits v) :
    Sends w ev si (Roughly lo X 0x0C t (Side.launched v)) (Roughly lo X 0x04 t (Side.shot si v)) := by
  have hsends (t' : Side) := Outgoing.sends (t := t') hev hX hw hv
  refine ⟨fun c f he h ↦ ?_, fun c n seen h ↦ ?_, fun c h htx ↦ ?_, fun c _ ↦ hw c, Roughly.workable hev hX hw⟩
  · obtain ⟨t', ht, h⟩ := h
    exact ⟨t', ht, (hsends t').arrive c f he h⟩
  · obtain ⟨t', ht, h⟩ := h
    exact ⟨t', ht, (hsends t').poll c n seen h⟩
  · obtain ⟨t', ht, h⟩ := h
    exact ⟨t', ht, (hsends t').finish c h htx⟩

/-- The frame that is sent may reach into the receive buffer. -/
theorem Outgoing.launch_roughly (h : Outgoing lo X 0x04 t c) (hX : Beside si ev lo X) (hv : Fits v) :
    Roughly lo X 0x0C t (Side.launched v) (launch si (aim v c)) := by
  by_cases hlo : lo = 0
  · exact ⟨t, fun _ ↦ rfl, h.launch hX hv (.inl hlo)⟩
  · have hstill : Beside si PhyWrites.still 0 X := ⟨hX.congr, fun c f he ↦ he.elim nofun⟩
    have hwhole : Outgoing 0 X 0x04 { t with mem := c.mem } c :=
      ⟨h.ring, h.laid, h.econ1, fun _ _ ↦ rfl, h.regs, h.sent, h.stored⟩
    have hlaunch := hwhole.launch hstill hv (.inl rfl)
    refine ⟨{ t with mem := c.mem }, fun he ↦ absurd he hlo, hlaunch.ring, hlaunch.laid, hlaunch.econ1,
      fun a _ ↦ hlaunch.mem a (Nat.zero_le a), hlaunch.regs, hlaunch.sent, hlaunch.stored⟩

theorem spec_ready_roughly (hev : Acts si ev) (hX : Beside si ev lo X) (hw : ∀ c, w.always c ∧ w.start c)
    (hv : Fits (d.txBuffPtr - 1)) :
    (station w ev tot si).Spec (At (station w ev tot si) d (Outgoing lo X 0x04 t)) enc28j60ReadyToSend
      fun _ ↦ At (station w ev tot si) { d with bank := .bank0, txBuffPtr := txBufferStartAddr }
        (Roughly lo X 0x04 t (Side.shot si (d.txBuffPtr - 1))) :=
  spec_readyToSend hev (Outgoing.workable hev hX fun c ↦ (hw c).1) (Roughly.sends hev hX (fun c ↦ (hw c).1) hv)
    fun _ h ↦ ⟨(hw _).2, Outgoing.launch_roughly h hX hv⟩

theorem spec_send_roughly (hev : Acts si ev) (hX : Beside si ev lo X) (hw : ∀ c, w.always c ∧ w.start c)
    (hn : base + n.toNat < memSize) (hv : Fits (txBufferStartAddr + n - 1)) :
    (station w ev tot si).Spec (At (station w ev tot si) d (Outgoing lo X 0x04 t)) (enc28j60SendPacket buf n)
      fun _ ↦ At (station w ev tot si) { d with bank := .bank0 }
        (Roughly lo X 0x04 (t.fill base (contents buf n.toNat)) (Side.shot si (txBufferStartAddr + n - 1))) := by
  refine (spec_sendPacket (W := fun k ↦ Outgoing lo X 0x04 (t.fill base (contents buf k))) hev
    (Outgoing.workable hev hX fun c ↦ (hw c).1) (fun _ ↦ Outgoing.workable hev hX fun c ↦ (hw c).1)
    (fun _ ↦ room_ends (a := txBufferStartAddr) hn) (fun c h ↦ ?_) (fun c h ↦ h.laid.autoinc)
    (Outgoing.fill_step (a := txBufferStartAddr) hX (Nat.le_refl base) hn)
    (Roughly.sends hev hX (fun c ↦ (hw c).1) hv)
    fun _ h ↦ ⟨(hw _).2, Outgoing.launch_roughly h hX hv⟩).mono
    (fun _ _ h ↦ h) fun _ _ _ h ↦ ⟨h.1, h.2.1, h.2.2.2⟩
  rw [contents, List.range_zero, List.map_nil, base, fill_start]
  exact h.put hX (by decide) _

end Unknown

section Calls

/-- The largest frame, with its control byte, that leaves room for the status vector. -/
def frameLimit : ℕ := 2041

/-- The call keeps to the transmit buffer when the driver stands at `p`. -/
def Fits (p : Word) : Call → Prop
  | .writeToTx _ n => p.toNat + n.toNat ≤ base + frameLimit
  | .sendPacket _ n => n.toNat ≤ frameLimit
  | _ => True

/-- Where a call leaves the driver's pointer. -/
def advance (p : Word) : Call → Word
  | .prepareToTx => txBufferStartAddr
  | .writeToTx _ n => p + n
  | .readyToSend => txBufferStartAddr
  | _ => p

/-- What a call makes of the transmit side. -/
def transmitted (si : Silicon) (p : Word) (t : Side) : Call → Side
  | .writeToTx buf n => t.fill p.toNat (contents buf n.toNat)
  | .readyToSend => t.shot si (p - 1)
  | .sendPacket buf n => (t.fill base (contents buf n.toNat)).shot si (txBufferStartAddr + n - 1)
  | _ => t

def receives : Call → Bool
  | .receivePacket .. => true
  | _ => false

/-- The driver's pointer is within the transmit buffer. -/
def Within (p : Word) : Prop := base ≤ p.toNat ∧ p.toNat ≤ base + frameLimit

theorem within_advance (hp : Within p) (hk : Fits p k) : Within (advance p k) := by
  cases k with
  | writeToTx buf n =>
    have hnat : (p + n).toNat = p.toNat + n.toNat := by
      have hb : base + frameLimit = 8185 := rfl
      have hfit : p.toNat + n.toNat ≤ base + frameLimit := hk
      rw [BitVec.toNat_add]
      omega
    refine ⟨?_, ?_⟩
    · change base ≤ (p + n).toNat
      have hlow := hp.1
      omega
    · change (p + n).toNat ≤ _
      rw [hnat]
      exact hk
  | prepareToTx | readyToSend => exact ⟨Nat.le_refl base, Nat.le_add_right _ _⟩
  | receivePacket buf maxlen => exact hp
  | sendPacket buf n => exact hp

theorem fits_last (hp : Within p) : Transmission.Fits (p - 1) := by
  obtain ⟨hlow, hhigh⟩ := hp
  have hb : base = 0x1800 := rfl
  have hl : frameLimit = 2041 := rfl
  have hnat : (p - 1 : Word).toNat = p.toNat - 1 := by
    rw [BitVec.toNat_sub]
    change (2 ^ 16 - 1 + p.toNat) % 2 ^ 16 = _
    omega
  refine ⟨?_, ?_⟩
  all_goals rw [hnat]
  · omega
  · unfold memSize
    omega

/-- The transmit calls, one step each. -/
theorem does_transmit (hev : Acts si ev) (hX : Beside si ev lo X) (hk : receives k = false)
    (hfit : Fits d.txBuffPtr k) (hp : Within d.txBuffPtr) (hs : s.window = .high)
    (hc : Coherent (chip si) d s.chip) (h : Outgoing lo X 0x04 t s.chip) :
    (station unwatched ev tot si).Does k.run (fun r d' s' ↦ r = none ∧ s'.window = .high ∧
      ∃ b, (b = d.bank ∨ b = .bank0) ∧
        At (station unwatched ev tot si) { d with bank := b, txBuffPtr := advance d.txBuffPtr k }
          (fun c ↦ ∃ t', (lo = 0 → t' = transmitted si d.txBuffPtr t k) ∧ Outgoing lo X 0x04 t' c) d' s'.chip)
      d s := by
  have hw : ∀ c, unwatched.always c ∧ unwatched.start c := fun _ ↦ ⟨trivial, trivial⟩
  have hat : At (station unwatched ev tot si) d (Outgoing lo X 0x04 t) d s.chip := ⟨rfl, hc, h⟩
  cases k with
  | receivePacket buf maxlen => cases hk
  | prepareToTx =>
    exact Machine.dwp_map.mpr (Machine.dwp_modify.mpr
      ⟨rfl, hs, d.bank, .inl rfl, rfl, hc, t, fun _ ↦ rfl, h⟩)
  | writeToTx buf n =>
    have hroom : d.txBuffPtr.toNat + n.toNat < memSize := Nat.lt_of_le_of_lt hfit (by decide)
    have hwrite : (station unwatched ev tot si).Spec _ (enc28j60WriteToTx buf n) _ :=
      spec_write (t := t) hev hX (fun c ↦ (hw c).1) hp.1 hroom
    refine Machine.dwp_map.mpr (Machine.dwp_mono (hwrite d s (.inl hs) hat) fun _ d' s' h' ↦ ?_)
    obtain ⟨hs', rfl, hc', h'⟩ := h'
    exact ⟨rfl, hs', _, .inr rfl, rfl, hc', _, fun _ ↦ rfl, h'⟩
  | readyToSend =>
    have hready : (station unwatched ev tot si).Spec _ enc28j60ReadyToSend _ :=
      spec_ready_roughly (t := t) hev hX hw (fits_last hp)
    refine Machine.dwp_map.mpr (Machine.dwp_mono (hready d s (.inl hs) hat) fun _ d' s' h' ↦ ?_)
    obtain ⟨hs', rfl, hc', t', ht, h'⟩ := h'
    exact ⟨rfl, hs', _, .inr rfl, rfl, hc', _, fun he ↦ congrArg (Side.shot si _) (ht he), h'⟩
  | sendPacket buf n =>
    have hn : n.toNat ≤ 2041 := hfit
    have hroom : base + n.toNat < memSize := by
      change 0x1800 + n.toNat < 0x2000
      omega
    have hwithin : Within (txBufferStartAddr + n) :=
      within_advance (k := .writeToTx buf n) ⟨Nat.le_refl base, Nat.le_add_right _ _⟩
        (Nat.add_le_add_left hfit base)
    have hsend : (station unwatched ev tot si).Spec _ (enc28j60SendPacket buf n) _ :=
      spec_send_roughly (d := d) (t := t) hev hX hw hroom (fits_last hwithin)
    refine Machine.dwp_map.mpr (Machine.dwp_mono (hsend d s (.inl hs) hat) fun _ d' s' h' ↦ ?_)
    obtain ⟨hs', rfl, hc', t', ht, h'⟩ := h'
    exact ⟨rfl, hs', _, .inr rfl, rfl, hc', _, fun he ↦ congrArg (Side.shot si _) (ht he), h'⟩

end Calls

section States

variable {A : List Frame → Prop}

/-- The receive side between the calls, when `A` is known of the frames accepted. -/
def Manned (gone : List Frame) (A : List Frame → Prop) (c : Chip) : Prop :=
  taken c = gone.length ∧ A c.accepted ∧ ∃ rs, Ringed gone rs 0 c

/-- The environment keeps `A`, and lets nothing arrive where the whole memory is followed. -/
def Admits (si : Silicon) (ev : E → Chip → Chip) (lo : ℕ) (A : List Frame → Prop) : Prop :=
  ∀ f, (∃ e, ev e = (Event.arrive f).act si) → 0x1800 ≤ lo ∧ ∀ fs, A fs → A (fs ++ [f])

theorem Admits.accepted (hA : Admits si ev lo A) {f : Frame} (he : ∃ e, ev e = (Event.arrive f).act si)
    (h : A c.accepted) : A (c.arrive f).accepted := by
  unfold Chip.arrive
  split
  · exact (hA f he).2 _ h
  · exact h

theorem beside_manned (hA : Admits si ev lo A) : Beside si ev lo (Manned gone A) := by
  refine ⟨fun c c' ha hs h ↦ ?_, fun c f he hl _ h ↦ ?_⟩
  · obtain ⟨ht, hacc, rs, hr⟩ := h
    refine ⟨?_, ?_, rs, hr.congr ha⟩
    · rw [taken, hs]
      exact ht
    · rwa [ha.accepted]
  · obtain ⟨ht, hacc, rs, hr⟩ := h
    obtain ⟨new, hn⟩ := hr.arrive hl f
    refine ⟨⟨?_, hA.accepted he hacc, rs ++ new, hn⟩, (hA f he).1⟩
    rw [taken, counts_arrive]
    exact ht

/-- Between the calls: the frames `gone` have been delivered and the driver can send. Where the whole
memory is followed, it and the frames sent are those of `t`. -/
structure Posted (lo : ℕ) (A : List Frame → Prop) (gone : List Frame) (t : Side) (d : Enc28j60T)
    (s : Bus Chip) : Prop where
  window : s.window = .high
  docked : Docked gone d s.chip
  accepted : A s.chip.accepted
  econ1 : s.chip.econ1 &&& 0xFC = 0x04
  ptr : Within d.txBuffPtr
  side : lo = 0 → s.chip.mem = t.mem ∧ s.chip.sent = t.sent

theorem Posted.outgoing (h : Posted lo A gone t d s) :
    Outgoing lo (Manned gone A) 0x04 (sideOf s.chip) s.chip :=
  ⟨⟨h.docked.counts, h.accepted, h.docked.ring⟩, h.docked.laid, h.econ1, fun _ _ ↦ rfl, fun _ _ ↦ rfl,
    rfl, rfl⟩

/-- What is known of the transmit side while a packet is received. -/
def Aboard (lo : ℕ) (A : List Frame → Prop) (t : Side) (c : Chip) : Prop :=
  A c.accepted ∧ c.econ1 &&& 0xFC = 0x04 ∧ (lo = 0 → c.mem = t.mem ∧ c.sent = t.sent)

theorem aside_aboard (hev : Acts si ev) (hA : Admits si ev lo A) : Aside ev (Aboard lo A t) := by
  refine ⟨fun e c hidle h ↦ ?_, fun c c' hm ha hs he h ↦ ?_⟩
  · obtain ⟨hacc, hecon1, hside⟩ := h
    obtain ⟨e', he⟩ := hev e
    rw [he]
    cases e' with
    | arrive f =>
      refine ⟨hA.accepted ⟨e, he⟩ hacc, ?_, fun hlo ↦ ?_⟩
      · change (c.arrive f).econ1 &&& 0xFC = 0x04
        rw [Chip.econ1, c.arrive_regs]
        exact hecon1
      · have hhigh := (hA f ⟨e, he⟩).1
        omega
    | txDone =>
      simp only [Event.act, hidle, Bool.false_eq_true, if_false]
      exact ⟨hacc, hecon1, hside⟩
  · obtain ⟨hacc, hecon1, hside⟩ := h
    refine ⟨by rwa [ha], by rwa [he], ?_⟩
    rwa [hm, hs]

/-- What a call returns, and which frames have been delivered after it. -/
def Outcome (A : List Frame → Prop) (gone gone' : List Frame) : Call → Option (Word × (ℕ → Byte)) → Prop
  | .receivePacket buf maxlen, r =>
    (A gone ∧ r = some (0, buf) ∧ gone' = gone) ∨
      ∃ f, r = some (delivery f buf maxlen) ∧ gone' = gone ++ [f]
  | _, r => r = none ∧ gone' = gone

theorem transmitted_congr (si : Silicon) {t u : Side} (hm : t.mem = u.mem) (hs : t.sent = u.sent) (p : Word) (k : Call) :
    (transmitted si p t k).mem = (transmitted si p u k).mem ∧
      (transmitted si p t k).sent = (transmitted si p u k).sent := by
  cases k <;> simp [transmitted, Side.fill, Side.shot, Side.launched, Side.frame, Side.put, hm, hs]

/-- Every call, one step: the transmit calls leave the receive side as it is, and receiving leaves
the transmit side as it is. -/
theorem does_step (hev : Acts si ev) (hA : Admits si ev lo A) (h : Posted lo A gone t d s)
    (hfit : Fits d.txBuffPtr k) :
    (Port.machine (chip si) ev).dwp (fun _ _ ↦ True) tot k.run (fun r d' s' ↦
      d'.txBuffPtr = advance d.txBuffPtr k ∧ ∃ gone', Outcome A gone gone' k r ∧
        Posted lo A gone' (transmitted si d.txBuffPtr t k) d' s') d s := by
  by_cases hk : receives k = true
  · cases k with
    | receivePacket buf maxlen =>
      have hcall : (station (vigil gone) ev tot si).Does (enc28j60ReceivePacket buf maxlen) _ d s :=
        does_receive hev (aside_aboard (t := t) hev hA) h.docked ⟨h.accepted, h.econ1, h.side⟩ h.window buf
          maxlen fun c hc (he : c.accepted = gone) ↦ (he ▸ hc.1 : A gone)
      refine Machine.dwp_map.mpr (Machine.dwp_mono (Machine.dwp_guard hcall fun _ _ _ ↦ trivial) ?_)
      intro r d' s' h'
      obtain ⟨hw', ⟨hacc, hecon1, hside⟩, hptr, hres⟩ := h'
      have hp : Within d'.txBuffPtr := hptr ▸ h.ptr
      rcases hres with ⟨hnone, rfl, -, -, hd⟩ | ⟨b, f, -, rfl, -, hd⟩
      · exact ⟨hptr, gone, .inl ⟨hnone, rfl, rfl⟩, hw', hd, hacc, hecon1, hp, hside⟩
      · exact ⟨hptr, gone ++ [f], .inr ⟨f, rfl, rfl⟩, hw', hd, hacc, hecon1, hp, hside⟩
    | _ => cases hk
  · have hk : receives k = false := by simpa using hk
    have hbank : Coherent (chip si) d s.chip := .inr h.docked.bank.2
    have hcall : (station unwatched ev tot si).Does k.run _ d s :=
      does_transmit hev (beside_manned hA) hk hfit h.ptr h.window hbank h.outgoing
    refine Machine.dwp_mono (Machine.dwp_guard hcall fun _ _ _ ↦ trivial) ?_
    intro r d' s' h'
    obtain ⟨rfl, hw', b, hb, rfl, hcoh, t', ht, hout⟩ := h'
    have hb : b ≠ .common := by
      rcases hb with rfl | rfl
      · exact h.docked.bank.1
      · decide
    have hbits : s'.chip.econ1.setWidth 2 = b.bits := hcoh.resolve_left hb
    have hidle : s'.chip.txrts = false := mask_idle _ hout.econ1
    have hdock : Docked gone { d with bank := b, txBuffPtr := advance d.txBuffPtr k } s'.chip :=
      ⟨⟨hb, hbits⟩, h.docked.nextRx, hout.laid, hidle, hout.ring.1, hout.ring.2.2⟩
    refine ⟨rfl, gone, ?_, hw', hdock, hout.ring.2.1, hout.econ1, within_advance h.ptr hfit, fun hlo ↦ ?_⟩
    · cases k with
      | receivePacket buf maxlen => cases hk
      | _ => exact ⟨rfl, rfl⟩
    · obtain ⟨hm, hs⟩ := h.side hlo
      have hcongr := transmitted_congr si (t := sideOf s.chip) hm hs d.txBuffPtr k
      rw [← ht hlo] at hcongr
      refine ⟨(funext fun a ↦ hout.mem a ?_).trans hcongr.1, hout.sent.trans hcongr.2⟩
      rw [hlo]
      exact Nat.zero_le a

end States

section Runs

variable {LL_TEST : Bool} {mac : MacAddrT} {l : List (Call × Option (Word × (ℕ → Byte)))}

/-- Initialisation, and then receiving and sending in any order, within the transmit buffer. -/
abbrev Trades (si : Silicon) (LL_TEST : Bool) (mac : MacAddrT) :
    List (Call × Option (Word × (ℕ → Byte))) → Enc28j60T → Bus Chip → Prop :=
  (live si).Session (Initialized si LL_TEST mac) (fun k d _ ↦ Fits d.txBuffPtr k) Call.run

theorem admits_live : Admits si (Event.act si) 0x1800 fun _ ↦ True :=
  fun _ _ ↦ ⟨Nat.le_refl _, fun _ _ ↦ trivial⟩

theorem posted_event {t : Side} (h : Posted 0x1800 (fun _ ↦ True) gone t d s) (e : Event) :
    Posted 0x1800 (fun _ ↦ True) gone t d ((live si).interfere e s) := by
  refine ⟨h.window, h.docked.event e, trivial, ?_, h.ptr, nofun⟩
  have hregs : (e.act si s.chip).regs = s.chip.regs := regs_event h.docked.idle
  change (e.act si s.chip).regs (ECON1.cell 0) &&& 0xFC = 0x04
  rw [hregs]
  exact h.econ1

theorem posted_initialized (h : Initialized si LL_TEST mac d s) (t : Side) :
    Posted 0x1800 (fun _ ↦ True) [] t d s := by
  obtain ⟨hw, hdock, hptr⟩ := docked_initialized h
  obtain ⟨-, base', -, -, -, hgov⟩ := sane_initialized h
  refine ⟨hw, hdock, trivial, hgov.econ1, ?_, nofun⟩
  rw [hptr]
  exact ⟨Nat.le_refl base, Nat.le_add_right _ _⟩

theorem posted_trades (h : Trades si LL_TEST mac l d s) (t : Side) :
    ∃ gone, Posted 0x1800 (fun _ ↦ True) gone t d s := by
  refine h.invariant (G := fun _ _ ↦ True) (I := fun _ d s ↦ ∃ gone, Posted 0x1800 (fun _ ↦ True) gone t d s)
    ?_ ?_ ?_
  · intro d s h
    exact ⟨[], posted_initialized h t⟩
  · intro l d s e h
    obtain ⟨gone, h⟩ := h
    exact ⟨gone, posted_event h e⟩
  · intro l d s k hk h
    obtain ⟨gone, h⟩ := h
    refine Machine.dwp_mono (does_step acts_act admits_live h hk) ?_
    intro r d' s' h'
    obtain ⟨-, gone', -, h'⟩ := h'
    exact ⟨gone', h'.window, h'.docked, trivial, h'.econ1, h'.ptr, nofun⟩

end Runs

end Enc28j60.Traffic
