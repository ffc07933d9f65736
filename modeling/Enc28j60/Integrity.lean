import Enc28j60.Interaction.Session
import Enc28j60.Procedures
import Enc28j60.Startup

namespace Enc28j60.Integrity

open Interaction RegisterMap SpiSlave Port LowLayer Interface Access Banking DataSheet Quiet
open Boot Enc28j60.Configuration Startup Operation Procedures

variable {si : Silicon} {c : Chip} {d : Enc28j60T} {s : Bus Chip} {base : Cell → Byte} {k n : ℕ}
  {v : Byte} {x : Cell}

/-- The cells the packet functions change. -/
def freeCells : List Cell := ECON1.cell 0 :: ERXRDPTL.cell 1 :: pointerCells

/-- The other cells are as in `base`, `ECON1` is `v` but for the bank, and `k` transmissions have
been started. -/
structure Governed (base : Cell → Byte) (v : Byte) (k : ℕ) (c : Chip) : Prop where
  regs : ∀ x ∉ freeCells, c.regs x = base x
  econ1 : c.econ1 &&& 0xFC = v
  sent : c.sent.length = k

/-- At most `n` transmissions are started. -/
def quota (n : ℕ) : Watch :=
  ⟨fun _ ↦ True, fun c ↦ c.sent.length < n, fun _ ↦ True, fun _ _ ↦ True, fun _ _ _ _ _ ↦ trivial⟩

section Steps

theorem free_econ1 (h : x ∉ freeCells) : x ≠ ECON1.cell 0 := by
  rintro rfl
  exact h List.mem_cons_self

theorem pointer_free (h : x ∈ pointerCells) : x ∈ freeCells :=
  List.mem_cons_of_mem _ (List.mem_cons_of_mem _ h)

theorem Governed.setReg (h : Governed base v k c) (hx : x ∈ freeCells) (hn : x ≠ ECON1.cell 0) (b : Byte) :
    Governed base v k (c.setReg x b) := by
  refine ⟨fun y hy ↦ ?_, ?_, h.sent⟩
  · have hne : y ≠ x := fun he ↦ hy (by rwa [he])
    rw [regs_setReg, if_neg hne, h.regs y hy]
  · rw [Chip.econ1_setReg_of_ne hn, h.econ1]

theorem Governed.put (h : Governed base v k c) {r : RegT} (h₀ : r.cell 0 ∈ freeCells)
    (h₁ : r.cell 1 ∈ freeCells) (hn : r.cell 0 ≠ ECON1.cell 0 ∧ r.cell 1 ≠ ECON1.cell 0) (b : Word) :
    Governed base v k (put r b c) := (h.setReg h₀ hn.1 _).setReg h₁ hn.2 _

/-- What changes none of the registers and starts nothing. -/
theorem Governed.congr {c' : Chip} (h : Governed base v k c) (hr : c'.regs = c.regs)
    (hs : c'.sent = c.sent) : Governed base v k c' := by
  refine ⟨fun x hx ↦ ?_, ?_, ?_⟩
  · rw [hr, h.regs x hx]
  · rw [Chip.econ1, hr]
    exact h.econ1
  · rw [hs, h.sent]

theorem Governed.arrive (h : Governed base v k c) (f : Frame) : Governed base v k (c.arrive f) :=
  h.congr (c.arrive_regs f) (sent_arrive f)

theorem Governed.readBuf (h : Governed base v k c) : Governed base v k c.readBuf.2 := by
  unfold Chip.readBuf
  simp only
  split
  · exact h.put (r := ERDPTL) (by decide) (by decide) (by decide) _
  · exact h

theorem Governed.writeBuf (h : Governed base v k c) (b : Byte) : Governed base v k (c.writeBuf b) := by
  unfold Chip.writeBuf
  simp only
  split
  · have hstored : Governed base v k { c with
        mem := Function.update c.mem (c.ptr EWRPTL) b, stored := c.stored ++ [c.ptr EWRPTL] } :=
      h.congr rfl rfl
    exact hstored.put (r := EWRPTL) (by decide) (by decide) (by decide) _
  · exact h.congr rfl rfl

theorem Governed.release (h : Governed base v k c) (next : Word) : Governed base v k (release next c) := by
  have hput : Governed base v k (Operation.put ERXRDPTL next c) :=
    h.put (by decide) (by decide) (by decide) next
  exact hput.congr rfl rfl

theorem Governed.reseat (h : Governed base v k c) (b : BitVec 2) (seen : Byte) :
    Governed base v k (reseat c b seen) := by
  refine ⟨fun x hx ↦ ?_, ?_, h.sent⟩
  · rw [regs_reseat (free_econ1 hx), h.regs x hx]
  · rw [econ1_reseat, (txrts_mask _ _).2.2, h.econ1]

theorem masked_idle : ∀ v : Byte, v &&& 0xFC = 0x04 → v.getLsbD 2 = true ∧ v.getLsbD 3 = false := by
  decide

theorem masked_raise : ∀ v : Byte, v &&& 0xFC = 0x04 → (v ||| 0x08) &&& 0xFC = 0x0C := by decide

theorem masked_clear : ∀ v : Byte, v &&& 0xFC = 0x0C → (v &&& ~~~0x08) &&& 0xFC = 0x04 := by decide

theorem Governed.workable {E : Type} {ev : E → Chip → Chip} (hev : Acts si ev) :
    Workable (quota n) ev (Governed base 0x04 k) := by
  refine ⟨fun e c h ↦ ?_, fun c h ↦ (masked_idle _ h.econ1).2, fun c b seen h ↦ h.reseat b seen,
    fun _ _ ↦ trivial⟩
  obtain ⟨e', he⟩ := hev e
  rw [he]
  cases e' with
  | arrive f => exact h.arrive f
  | txDone =>
    have htx : c.txrts = false := (masked_idle _ h.econ1).2
    simp only [Event.act, htx, Bool.false_eq_true, if_false]
    exact h

theorem Governed.launch (h : Governed base 0x04 k c) : Governed base 0x0C (k + 1) (launch si c) := by
  have hecon1 : (Operation.launch si c).econ1 = c.econ1 ||| 0x08 := by
    simp only [Chip.econ1, Operation.launch, Chip.startTx, Chip.setReg, Function.update_self]
  refine ⟨fun x hx ↦ ?_, ?_, ?_⟩
  · exact (Function.update_of_ne (free_econ1 hx) _ _).trans (h.regs x hx)
  · rw [hecon1, masked_raise _ h.econ1]
  · change (c.sent ++ [_]).length = k + 1
    rw [List.length_append, h.sent]
    rfl

theorem Governed.finish (h : Governed base 0x0C k c) : Governed base 0x04 k (c.finishTx si) := by
  refine ⟨fun x hx ↦ ?_, ?_, h.sent⟩
  · exact (Function.update_of_ne (free_econ1 hx) _ _).trans (h.regs x hx)
  · rw [Chip.econ1_finishTx, masked_clear _ h.econ1]

theorem Governed.sends {E : Type} {ev : E → Chip → Chip} (hev : Acts si ev) :
    Sends (quota n) ev si (Governed base 0x0C k) (Governed base 0x04 k) where
  arrive _ f _ h := h.arrive f
  poll _ _ _ h := h.congr rfl rfl
  finish _ h _ := h.finish
  watched _ _ := trivial
  sent := Governed.workable hev

theorem autoinc_governed (h₂ : base (ECON2.cell 0) = 0x80) (h : Governed base v k c) :
    c.econ2 = 0x80 ∧ c.autoinc = true := by
  have he : c.econ2 = 0x80 := (h.regs _ (by decide)).trans h₂
  refine ⟨he, ?_⟩
  rw [Chip.autoinc, he]
  rfl

end Steps

section Calls

variable {tot : Prop} {E : Type} {ev : E → Chip → Chip}

/-- The number of transmissions a call is to start. -/
def sends : Call → ℕ
  | .sendPacket _ _ | .readyToSend => 1
  | _ => 0

/-- The cached bank is the selected one, and the chip is idle, configured as in `base`. -/
def Sane (si : Silicon) (base : Cell → Byte) (k : ℕ) (d : Enc28j60T) (c : Chip) : Prop :=
  d.bank ≠ .common ∧ (chip si).bsel c = d.bank.bits ∧ Governed base 0x04 k c

/-- The buffers are so short that `enc28j60_write_buf` comes to an end. -/
def Ends : Call → Prop
  | .sendPacket _ length | .writeToTx _ length => length.toNat ≤ 32767
  | _ => True

theorem receives (hev : Acts si ev) (h₂ : base (ECON2.cell 0) = 0x80) (maxlen : Word) :
    Receives (quota n) ev d maxlen (Governed base 0x04 k) (fun _ ↦ Governed base 0x04 k)
      (fun _ ↦ Governed base 0x04 k) (fun _ _ ↦ Governed base 0x04 k) (fun _ _ ↦ Governed base 0x04 k)
      (fun _ _ ↦ Governed base 0x04 k) where
  start := Governed.workable hev
  counted _ := Governed.workable hev
  count _ h := h.congr rfl rfl
  header _ := Governed.workable hev
  payload _ _ := Governed.workable hev
  released _ _ := Governed.workable hev
  final _ _ e c h := (Governed.workable (n := n) hev).keeps e c h
  autoinc := ⟨fun _ h ↦ (autoinc_governed h₂ h).2, fun _ _ h ↦ (autoinc_governed h₂ h).2⟩
  seek _ _ _ h := h.put (by decide) (by decide) (by decide) _
  copyHeader _ _ _ h := ⟨trivial, h.readBuf⟩
  parse _ _ _ h := h
  copyPayload _ _ _ _ h := ⟨trivial, h.readBuf⟩
  release hdr _ _ c h := by
    have hseek : Governed base 0x04 k (put ERDPTL hdr.nextPacketPtr c) :=
      h.put (by decide) (by decide) (by decide) _
    exact ⟨trivial, hseek.release _⟩
  decrement _ _ _ h := ⟨(autoinc_governed h₂ h).1, h.congr rfl rfl⟩

theorem launches (h : Governed base 0x04 k c) (last : Word) :
    (quota (k + 1)).start (aim last c) ∧ Governed base 0x0C (k + 1) (launch si (aim last c)) := by
  have haim : Governed base 0x04 k (aim last c) :=
    (h.put (by decide) (by decide) (by decide) _).put (by decide) (by decide) (by decide) _
  exact ⟨by rw [← haim.sent]; exact Nat.lt_succ_self _, haim.launch⟩

/-- One call keeps the chip sane, and starts as many transmissions as it is to. -/
theorem does_call (hev : Acts si ev) (h₂ : base (ECON2.cell 0) = 0x80) (call : Call)
    (hc : tot → Ends call) (hw : s.window = .high) (hs : Sane si base k d s.chip) :
    (station (quota (k + sends call)) ev tot si).Does call.run
      (fun _ d' s' ↦ s'.window = .high ∧ Sane si base (k + sends call) d' s'.chip) d s := by
  obtain ⟨hb, hcoh, hg⟩ := hs
  have hat {w : Watch} : At (station w ev tot si) d (Governed base 0x04 k) d s.chip :=
    ⟨rfl, .inr hcoh, hg⟩
  have hsane {w : Watch} {d₁ d' : Enc28j60T} {m : ℕ} {c : Chip}
      (h : At (station w ev tot si) d₁ (Governed base 0x04 m) d' c) (hd : d₁.bank ≠ .common) :
      Sane si base m d' c := by
    obtain ⟨rfl, hcoh, hg⟩ := h
    exact ⟨hd, hcoh.resolve_left hd, hg⟩
  cases call with
  | receivePacket buf maxlen =>
    refine Machine.dwp_map.mpr (Machine.dwp_mono
      (spec_receivePacket hev (receives hev h₂ maxlen) d s (.inl hw) hat) ?_)
    rintro r d' s' ⟨hw, ⟨-, h⟩ | ⟨hdr, l, -, -, h⟩⟩
    · exact ⟨hw, hsane h nofun⟩
    · exact ⟨hw, hsane h nofun⟩
  | sendPacket buf length =>
    refine Machine.dwp_map.mpr (Machine.dwp_mono (spec_sendPacket (W := fun _ ↦ Governed base 0x04 k) hev
      (Governed.workable hev) (fun _ ↦ Governed.workable hev) hc
      (fun _ h ↦ h.put (by decide) (by decide) (by decide) _) (fun _ h ↦ (autoinc_governed h₂ h).2)
      (fun _ _ _ h ↦ h.writeBuf _) (Governed.sends hev) (fun _ h ↦ launches h _) d s (.inl hw) hat) ?_)
    rintro - d' s' ⟨hw, rfl, hcoh, -, hg⟩
    exact ⟨hw, ⟨nofun, hcoh.resolve_left nofun, hg⟩⟩
  | prepareToTx => exact ⟨hw, hb, hcoh, hg⟩
  | writeToTx buf length =>
    refine Machine.dwp_map.mpr (Machine.dwp_mono (spec_writeToTx (W := fun _ ↦ Governed base 0x04 k) hev
      (Governed.workable hev) (fun _ ↦ Governed.workable hev) hc
      (fun _ h ↦ h.put (by decide) (by decide) (by decide) _)
      (fun _ h ↦ (autoinc_governed h₂ h).2) (fun _ _ _ h ↦ h.writeBuf _) d s (.inl hw) hat) ?_)
    rintro - d' s' ⟨hw, rfl, hcoh, -, hg⟩
    exact ⟨hw, ⟨nofun, hcoh.resolve_left nofun, hg⟩⟩
  | readyToSend =>
    refine Machine.dwp_map.mpr (Machine.dwp_mono (spec_readyToSend hev (Governed.workable hev)
      (Governed.sends hev) (fun _ h ↦ launches h _) d s (.inl hw) hat) ?_)
    rintro - d' s' ⟨hw, h⟩
    exact ⟨hw, hsane h nofun⟩

end Calls

section Runs

variable {LL_TEST : Bool} {mac : MacAddrT} {l : List (Call × Option (Word × (ℕ → Byte)))}

/-- Initialisation, and then calls of the packet functions in any order. -/
abbrev Runs (si : Silicon) (LL_TEST : Bool) (mac : MacAddrT) :
    List (Call × Option (Word × (ℕ → Byte))) → Enc28j60T → Bus Chip → Prop :=
  (live si).Session (Initialized si LL_TEST mac) (fun _ _ _ ↦ True) Call.run

/-- A chip whose registers agree with `base` is configured as the initialisation does it. -/
def Programs (si : Silicon) (mac : MacAddrT) (base : Cell → Byte) : Prop :=
  base (ECON2.cell 0) = 0x80 ∧ ∀ c : Chip, (∀ x ∉ freeCells, c.regs x = base x) →
    ∀ p ∈ programmed si mac, fetch p.1 c = p.2

/-- The number of transmissions the calls so far have started. -/
def started (l : List (Call × Option (Word × (ℕ → Byte)))) : ℕ := (l.map fun p ↦ sends p.1).sum

theorem programs_boot (y : Chip) : Programs si mac (awake (boot si mac (y.reset si))).regs := by
  refine ⟨?_, fun c hc ↦ ?_⟩
  · rw [regs_awake (by decide)]
    exact econ2_boot y
  · have hfetch (r : RegT) (h : Apart r freeCells) : fetch r c = fetch r (boot si mac (y.reset si)) := by
      refine fetch_frame h fun x hx ↦ ?_
      rw [hc x hx, regs_awake (free_econ1 hx)]
    have hboot : ∀ p ∈ programmed si mac, fetch p.1 (boot si mac (y.reset si)) = p.2 := fetch_boot y
    have hapart : ∀ p ∈ programmed si mac, Apart p.1 freeCells := by
      simp only [programmed, List.forall_mem_cons]
      refine ⟨?_, ?_, ?_, ?_, ?_, ?_, ?_, ?_, ?_, ?_, ?_, ?_, ?_, List.forall_mem_nil _⟩
      all_goals decide
    intro p hp
    rw [hfetch p.1 (hapart p hp), hboot p hp]

theorem sane_initialized (h : Initialized si LL_TEST mac d s) :
    s.window = .high ∧ ∃ base, Programs si mac base ∧ Sane si base 0 d s.chip := by
  obtain ⟨hw, ⟨d₀, rfl⟩, hcoh, x, y, -, -, hev⟩ := h.booted
  let c₀ : Chip := awake (boot si mac (y.reset si))
  have hecon1 : c₀.econ1 = 0x07 := by simp only [c₀, Chip.econ1, awake, Function.update_self]
  have htx : c₀.txrts = false := by
    rw [Chip.txrts, hecon1]
    rfl
  have hregs : s.chip.regs = c₀.regs := (Evolves.steady hev htx).1
  have hsent : s.chip.sent = [] := by
    have h₀ : c₀.sent = [] := (untouched_boot y).sent
    refine Evolves.of_stable (P := fun c ↦ c.sent = []) ?_ h₀ hev
    intro e c hc
    cases e with
    | arrive f => exact (sent_arrive f).trans hc
    | txDone =>
      simp only [Event.act]
      split
      · exact hc
      · exact hc
  have hbank : (initialized d₀).bank ≠ .common := fun h ↦ BankT.noConfusion h
  refine ⟨hw, c₀.regs, programs_boot y, hbank, hcoh.resolve_left hbank, fun x _ ↦ congrFun hregs x, ?_, ?_⟩
  · rw [Chip.econ1, hregs]
    change c₀.econ1 &&& 0xFC = 0x04
    rw [hecon1]
    decide
  · rw [hsent]
    rfl

theorem Sane.event {e : Event} (h : Sane si base k d c) : Sane si base k d (e.act si c) :=
  ⟨h.1, e.bsel.trans h.2.1, (Governed.workable (n := 0) acts_act).keeps e c h.2.2⟩

/-- The driver and the chip agree in every state a run can come to. -/
theorem sane_runs (h : Runs si LL_TEST mac l d s) :
    s.window = .high ∧ ∃ base, Programs si mac base ∧ Sane si base (started l) d s.chip := by
  refine h.invariant (G := fun _ _ ↦ True) (I := fun l d s ↦ s.window = .high ∧ ∃ base,
    Programs si mac base ∧ Sane si base (started l) d s.chip) (fun _ _ h ↦ sane_initialized h) ?_ ?_
  · rintro l d s e ⟨hw, base, hb, hs⟩
    exact ⟨hw, base, hb, hs.event⟩
  · rintro l d s call - ⟨hw, base, hb, hs⟩
    have hcall : (station (quota (started l + sends call)) (Event.act si) False si).Does call.run _ d s :=
      does_call acts_act hb.1 call nofun hw hs
    refine Machine.dwp_mono (Machine.dwp_guard hcall fun _ _ _ ↦ trivial) ?_
    rintro r d' s' ⟨hw', hs'⟩
    have hstarted : started (l ++ [(call, r)]) = started l + sends call := by
      simp only [started, List.map_append, List.map_cons, List.map_nil, List.sum_append, List.sum_cons,
        List.sum_nil, Nat.add_zero]
    rw [hstarted]
    exact ⟨hw', base, hb, hs'⟩

end Runs

end Enc28j60.Integrity
