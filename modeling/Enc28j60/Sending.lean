import Enc28j60.Integrity
import Enc28j60.Transmission

namespace Enc28j60.Sending

open Interaction RegisterMap SpiSlave Port LowLayer Interface Access Banking DataSheet Transfers
open Quiet Boot Operation Procedures CircularMemory Enc28j60.Ring Transmission Integrity

variable {si : Silicon} {c c₀ : Chip} {d : Enc28j60T} {s : Bus Chip} {t : Side}

section Receiver

/-- Since `c₀` nothing but arrivals has touched the receive side. -/
def Tail (c₀ c : Chip) : Prop := ∃ fs, c.accepted = c₀.accepted ++ fs ∧
  c.epktcnt = c₀.epktcnt + BitVec.ofNat 8 fs.length ∧ Alike (fs.foldl Chip.arrive c₀) c

theorem regs_arrivals (fs : List Frame) (c : Chip) : (fs.foldl Chip.arrive c).regs = c.regs := by
  induction fs generalizing c with
  | nil => rfl
  | cons f fs ih => exact (ih (c.arrive f)).trans (c.arrive_regs f)

theorem erxrdpt_arrivals (fs : List Frame) (c : Chip) : (fs.foldl Chip.arrive c).erxrdpt = c.erxrdpt := by
  induction fs generalizing c with
  | nil => rfl
  | cons f fs ih =>
    refine (ih (c.arrive f)).trans ?_
    unfold Chip.arrive
    split <;> rfl

theorem beside_tail (hl : Laid c₀) (hr : c₀.rxen = true) :
    Beside si (Event.act si) 0x1800 (Tail c₀) := by
  refine ⟨?_, ?_⟩
  · rintro c c' ha - ⟨fs, hacc, hcount, halike⟩
    exact ⟨fs, ha.accepted.trans hacc, ha.epktcnt.trans hcount, halike.trans ha⟩
  · rintro c f - hlaid hrx ⟨fs, hacc, hcount, halike⟩
    refine ⟨?_, Nat.le_refl _⟩
    by_cases hf : Accepts c f
    · have hx : Laid (fs.foldl Chip.arrive c₀) := hl.congr fun x _ ↦ congrFun (regs_arrivals fs c₀) x
      have hxr : c.rxen = (fs.foldl Chip.arrive c₀).rxen := by
        rw [hrx, Chip.rxen, Chip.econ1, regs_arrivals]
        exact hr.symm
      have harrive := halike.arrive hx hlaid hxr f
      refine ⟨fs ++ [f], ?_, ?_, ?_⟩
      · rw [hlaid.arrive_eq hf, ← List.append_assoc, ← hacc]
      · rw [hlaid.arrive_eq hf, List.length_append, List.length_singleton, BitVec.ofNat_add,
          ← BitVec.add_assoc, ← hcount]
        rfl
      · rw [List.foldl_append]
        exact harrive
    · rw [arrive_of_not hf]
      exact ⟨fs, hacc, hcount, halike⟩

theorem tail_self (c : Chip) : Tail c c :=
  ⟨[], (List.append_nil _).symm, (BitVec.add_zero _).symm, .refl c⟩

/-- Two chips that have accepted the same frames since `c₀` have the same receive side. -/
theorem Tail.alike {c' : Chip} (h : Tail c₀ c) (h' : Tail c₀ c') (he : c'.accepted = c.accepted) :
    Alike c c' := by
  obtain ⟨fs, hacc, -, halike⟩ := h
  obtain ⟨gs, hacc', -, halike'⟩ := h'
  have hfs : gs = fs := by
    rw [hacc, hacc'] at he
    exact List.append_cancel_left he
  subst hfs
  exact ⟨fun a ha ↦ (halike'.mem a ha).trans (halike.mem a ha).symm,
    halike'.erxwrpt.trans halike.erxwrpt.symm, halike'.erxrdpt.trans halike.erxrdpt.symm,
    halike'.epktcnt.trans halike.epktcnt.symm, he⟩

end Receiver

section Chunks

/-- No watch is kept. -/
def unwatched : Watch :=
  ⟨fun _ ↦ True, fun _ ↦ True, fun _ ↦ True, fun _ _ ↦ True, fun _ _ _ _ _ ↦ trivial⟩

variable {E : Type} {ev : E → Chip → Chip} {w : Watch} {tot : Prop} {X : Chip → Prop} {lo : ℕ}
  {bs : List Byte}

def chunkBytes (chunks : List ((ℤ → Byte) × Word)) : List Byte :=
  (chunks.map fun p ↦ contents p.1 p.2.toNat).flatten

/-- Every write goes on where the one before has stopped, whatever the lengths. -/
theorem does_chunks (hev : Acts si ev) (hX : Beside si ev lo X) (hw : ∀ c, w.always c)
    (chunks : List ((ℤ → Byte) × Word)) (hb : d.bank = .bank0)
    (hp : d.txBuffPtr = BitVec.ofNat 16 (base + bs.length))
    (hn : base + bs.length + (chunkBytes chunks).length < memSize) (hs : s.window = .high)
    (h : At (station w ev tot si) d (Outgoing lo X 0x04 (t.fill base bs)) d s.chip) :
    (station w ev tot si).Does (chunks.forM fun p ↦ enc28j60WriteToTx p.1 p.2) (fun _ d' s' ↦
      s'.window = .high ∧ At (station w ev tot si) { d with
        txBuffPtr := BitVec.ofNat 16 (base + (bs ++ chunkBytes chunks).length) }
        (Outgoing lo X 0x04 (t.fill base (bs ++ chunkBytes chunks))) d' s'.chip) d s := by
  induction chunks generalizing d bs s with
  | nil =>
    have hnil : bs ++ chunkBytes [] = bs := List.append_nil bs
    rw [hnil, ← hp]
    exact Machine.dwp_pure.mpr ⟨hs, h⟩
  | cons p chunks ih =>
    obtain ⟨buf, n⟩ := p
    have hcons : chunkBytes ((buf, n) :: chunks) = contents buf n.toNat ++ chunkBytes chunks :=
      List.flatten_cons
    have hlen : (contents buf n.toNat).length = n.toNat := length_contents _
    rw [hcons, List.length_append, hlen] at hn
    have hptr : d.txBuffPtr.toNat = base + bs.length := by
      rw [hp, BitVec.toNat_ofNat]
      unfold memSize at hn
      omega
    have hnext : d.txBuffPtr + n = BitVec.ofNat 16 (base + (bs ++ contents buf n.toNat).length) := by
      rw [hp, List.length_append, hlen, ← Nat.add_assoc, BitVec.ofNat_add _ n.toNat, BitVec.ofNat_toNat,
        BitVec.setWidth_eq]
    have hwrite : (station w ev tot si).Spec (At (station w ev tot si) d (Outgoing lo X 0x04 (t.fill base bs)))
        (enc28j60WriteToTx buf n) _ := spec_write hev hX hw (by omega) (by omega)
    rw [hptr, Side.fill_fill, hnext] at hwrite
    refine Machine.dwp_bind.mpr (Machine.dwp_mono (hwrite d s (.inl hs) h) ?_)
    rintro - d' s' ⟨hw', rfl, hat⟩
    have hrest := ih rfl rfl (by rw [List.length_append, hlen]; omega) hw' ⟨rfl, hat⟩
    rw [hcons, ← List.append_assoc]
    refine Machine.dwp_mono hrest fun _ d' s' h' ↦ ?_
    rw [← hb] at h'
    exact h'

/-- A frame that is handed over in pieces. -/
def sendChunks (chunks : List ((ℤ → Byte) × Word)) : Drv Unit := do
  enc28j60PrepareToTx
  chunks.forM fun p ↦ enc28j60WriteToTx p.1 p.2
  enc28j60ReadyToSend

/-- The end of a frame of `n` bytes: it is not empty, and leaves room for the status vector. -/
theorem frame_end {n : ℕ} (h : 1 ≤ n) (h' : n ≤ 2041) :
    (BitVec.ofNat 16 (base + n) - 1 : Word).toNat = base + n - 1 ∧ Fits (BitVec.ofNat 16 (base + n) - 1) ∧
      Known 0x1800 (BitVec.ofNat 16 (base + n) - 1) := by
  have hbase : base = 0x1800 := rfl
  have hnat : (BitVec.ofNat 16 (base + n) - 1 : Word).toNat = base + n - 1 := by
    rw [BitVec.toNat_sub, BitVec.toNat_ofNat]
    change (2 ^ 16 - 1 + (base + n) % 2 ^ 16) % 2 ^ 16 = _
    omega
  refine ⟨hnat, ⟨?_, ?_⟩, .inr ⟨Nat.le_of_eq hbase.symm, ?_⟩⟩
  all_goals rw [hnat]
  · omega
  · unfold memSize
    omega
  · omega

theorem does_sendChunks (hev : Acts si ev) (hX : Beside si ev 0x1800 X) (chunks : List ((ℤ → Byte) × Word))
    (hn : 1 ≤ (chunkBytes chunks).length) (hn' : (chunkBytes chunks).length ≤ 2041) (hs : s.window = .high)
    (hc : Coherent (chip si) d s.chip) (h : Outgoing 0x1800 X 0x04 t s.chip) :
    (station unwatched ev tot si).Does (sendChunks chunks) (fun _ d' s' ↦ s'.window = .high ∧
      At (station unwatched ev tot si) { d with bank := .bank0, txBuffPtr := txBufferStartAddr }
        (Outgoing 0x1800 X 0x04 ((t.fill base (chunkBytes chunks)).shot si
          (BitVec.ofNat 16 (base + (chunkBytes chunks).length) - 1))) d' s'.chip) d s := by
  obtain ⟨-, hfits, hknown⟩ := frame_end hn hn'
  cases chunks with
  | nil => exact absurd hn (by decide)
  | cons p chunks =>
    obtain ⟨buf, n⟩ := p
    have hcons : chunkBytes ((buf, n) :: chunks) = contents buf n.toNat ++ chunkBytes chunks :=
      List.flatten_cons
    have hlen : (contents buf n.toNat).length = n.toNat := length_contents _
    have hbase : base = 0x1800 := rfl
    rw [hcons, List.length_append, hlen] at hn'
    have hstart : txBufferStartAddr + n = BitVec.ofNat 16 (base + (contents buf n.toNat).length) := by
      rw [hlen, BitVec.ofNat_add, BitVec.ofNat_toNat, BitVec.setWidth_eq]
      rfl
    let d₀ : Enc28j60T := { d with txBuffPtr := txBufferStartAddr }
    have hat : At (station unwatched ev tot si) d₀ (Outgoing 0x1800 X 0x04 t) d₀ s.chip := ⟨rfl, hc, h⟩
    have hfirst : (station unwatched ev tot si).Spec _ (enc28j60WriteToTx buf n) _ :=
      spec_write (d := d₀) (t := t) hev hX (fun _ ↦ trivial) (Nat.le_refl base) (by
        change base + n.toNat < memSize
        unfold memSize
        omega)
    refine Machine.dwp_bind.mpr (Machine.dwp_modify.mpr (Machine.dwp_bind.mpr (Machine.dwp_bind.mpr
      (Machine.dwp_mono (hfirst d₀ s (.inl hs) hat) ?_))))
    rintro - d' s' ⟨hw, rfl, hcoh, hout⟩
    have hrest : (station unwatched ev tot si).Does (chunks.forM fun p ↦ enc28j60WriteToTx p.1 p.2) _ _ s' :=
      does_chunks hev hX (fun _ ↦ trivial) chunks rfl hstart (by
        rw [hlen]
        unfold memSize
        omega) hw ⟨rfl, hcoh, hout⟩
    refine Machine.dwp_mono hrest ?_
    rintro - d' s' ⟨hw, rfl, hcoh, hout⟩
    rw [← hcons] at hout ⊢
    generalize BitVec.ofNat 16 (base + (chunkBytes ((buf, n) :: chunks)).length) = last at hfits hknown ⊢
    have hready : (station unwatched ev tot si).Spec _ enc28j60ReadyToSend _ :=
      spec_ready (d := { d with bank := .bank0, txBuffPtr := last })
        (t := t.fill base (chunkBytes ((buf, n) :: chunks))) hev hX (fun _ ↦ ⟨trivial, trivial⟩) hfits hknown
    exact hready _ s' (.inl hw) ⟨rfl, hcoh, hout⟩

end Chunks

section Agreement

variable {LL_TEST : Bool} {mac : MacAddrT} {l : List (Call × Option (Word × (ℕ → Byte)))}

/-- The transmit side as it stands. -/
def sideOf (c : Chip) : Side := ⟨c.mem, c.regs, c.sent, c.stored⟩

/-- In every state of a run the driver can send, and knows where. -/
theorem outgoing_runs (h : Runs si LL_TEST mac l d s) :
    s.window = .high ∧ Coherent (chip si) d s.chip ∧ Beside si (Event.act si) 0x1800 (Tail s.chip) ∧
      Outgoing 0x1800 (Tail s.chip) 0x04 (sideOf s.chip) s.chip := by
  obtain ⟨hw, base, hprog, hbank, hcoh, hgov⟩ := sane_runs h
  have hfetch := hprog.2 s.chip hgov.regs
  simp only [Configuration.programmed, List.forall_mem_cons] at hfetch
  have hlaid : Laid s.chip := laid_of_fetch hfetch.1 hfetch.2.1 (autoinc_governed hprog.1 hgov).1
  have hrx : s.chip.rxen = true := (masked_idle _ hgov.econ1).1
  exact ⟨hw, .inr hcoh, beside_tail hlaid hrx, tail_self _, hlaid, hgov.econ1, fun _ _ ↦ rfl,
    fun _ _ ↦ rfl, rfl, rfl⟩

theorem regs_agree {X : Chip → Prop} {lo : ℕ} {d : Enc28j60T} {c c' : Chip} (hd : d.bank ≠ .common)
    (h : Outgoing lo X 0x04 t c) (h' : Outgoing lo X 0x04 t c') (hc : Coherent (chip si) d c)
    (hc' : Coherent (chip si) d c') : c.regs = c'.regs := by
  funext x
  by_cases hx : x = ECON1.cell 0
  · subst hx
    have hbits : ∀ v : Byte, (v &&& 0xFC ||| (v.setWidth 2).setWidth 8) = v := mask_bank
    have hbank : c.econ1.setWidth 2 = c'.econ1.setWidth 2 :=
      (hc.resolve_left hd).trans (hc'.resolve_left hd).symm
    change c.econ1 = c'.econ1
    rw [← hbits c.econ1, ← hbits c'.econ1, h.econ1, h'.econ1, hbank]
  · rw [h.regs x hx, h'.regs x hx]

/-- A frame handed over in pieces and the same frame handed over whole: both calls return, and they
agree on what is sent, on the registers, the transmit buffer and the driver's record, and on the
receive buffer as far as the chip has accepted the same frames meanwhile. -/
theorem interfaces_agree (h : Runs si LL_TEST mac l d s) (hd : d.txBuffPtr = txBufferStartAddr)
    (chunks : List ((ℤ → Byte) × Word)) (whole : ℤ → Byte) (n : Word)
    (hwhole : contents whole n.toNat = chunkBytes chunks) (hn : 1 ≤ n.toNat) (hn' : n.toNat ≤ 2041)
    (σ σ' : ℕ → List Event) :
    ∃ d' s₁ s₂, (live si).Returns σ ((sendChunks chunks).run d) s ((), d') s₁ ∧
      (live si).Returns σ' ((enc28j60SendPacket whole n).run d) s ((), d') s₂ ∧
      (∃ control bytes, control :: bytes = chunkBytes chunks ∧
        s₁.chip.sent = s.chip.sent ++ [⟨control, bytes⟩]) ∧
      s₁.chip.sent = s₂.chip.sent ∧ s₁.chip.regs = s₂.chip.regs ∧ s₁.chip.erxrdpt = s₂.chip.erxrdpt ∧
      (∀ a, txBufferStartAddr.toNat ≤ a → s₁.chip.mem a = s₂.chip.mem a) ∧
      (s₁.chip.accepted = s₂.chip.accepted → s₁.chip.mem = s₂.chip.mem ∧
        s₁.chip.epktcnt = s₂.chip.epktcnt ∧ s₁.chip.erxwrpt = s₂.chip.erxwrpt) := by
  obtain ⟨hw, hcoh, hX, hout⟩ := outgoing_runs h
  have hlen : (chunkBytes chunks).length = n.toNat := by rw [← hwhole, length_contents]
  obtain ⟨hlast, hfits, hknown⟩ := frame_end hn hn'
  have hend : txBufferStartAddr + n - 1 = BitVec.ofNat 16 (base + n.toNat) - 1 := by
    rw [BitVec.ofNat_add, BitVec.ofNat_toNat, BitVec.setWidth_eq]
    rfl
  have hchunks : (station unwatched (Event.act si) True si).Does (sendChunks chunks) _ d s :=
    does_sendChunks acts_act hX chunks (hlen.symm ▸ hn) (hlen.symm ▸ hn') hw hcoh hout
  have hsend : (station unwatched (Event.act si) True si).Spec _ (enc28j60SendPacket whole n) _ :=
    spec_send (d := d) (t := sideOf s.chip) acts_act hX (fun _ ↦ ⟨trivial, trivial⟩)
      (by change 0x1800 + n.toNat < 0x2000; omega) (hend ▸ hfits) (hend ▸ hknown)
  obtain ⟨⟨⟩, d₁, s₁, hr₁, -, rfl, hcoh₁, hout₁⟩ := Machine.dwp_total hchunks σ
  obtain ⟨⟨⟩, d₂, s₂, hr₂, -, rfl, hcoh₂, hout₂⟩ :=
    Machine.dwp_total (hsend d s (.inl hw) ⟨rfl, hcoh, hout⟩) σ'
  rw [hwhole, hend] at hout₂
  rw [hlen] at hout₁
  have hrecord : ({ d with bank := .bank0, txBuffPtr := txBufferStartAddr } : Enc28j60T) =
      { d with bank := .bank0 } := by rw [← hd]
  rw [hrecord] at hr₁ hcoh₁
  have hmem (a : ℕ) (ha : 0x1800 ≤ a) : s₁.chip.mem a = s₂.chip.mem a := by
    rw [hout₁.mem a ha, hout₂.mem a ha]
  refine ⟨_, s₁, s₂, hr₁, hr₂, ?_, hout₁.sent.trans hout₂.sent.symm,
    regs_agree (d := { d with bank := .bank0 }) nofun hout₁ hout₂ hcoh₁ hcoh₂, ?_, hmem,
    fun hacc ↦ ?_⟩
  · cases hbytes : chunkBytes chunks with
    | nil =>
      rw [hbytes] at hlen
      exact absurd hlen.symm (Nat.ne_of_gt hn)
    | cons control bytes =>
      refine ⟨control, bytes, rfl, ?_⟩
      rw [hbytes, List.length_cons] at hlen
      rw [hbytes] at hout₁
      have hframe : ((sideOf s.chip).fill base (control :: bytes)).frame
          (BitVec.ofNat 16 (base + n.toNat) - 1) = ⟨control, bytes⟩ := by
        refine Side.frame_fill ?_ ?_
        · rw [List.length_cons, hlen]
          change 0x1800 + n.toNat < 0x2000
          omega
        · rw [hlast, ← hlen]
          rfl
      rw [hout₁.sent, ← hframe]
      rfl
  · obtain ⟨fs, -, -, ha⟩ := hout₁.ring
    obtain ⟨gs, -, -, hb⟩ := hout₂.ring
    rw [ha.erxrdpt, hb.erxrdpt, erxrdpt_arrivals, erxrdpt_arrivals]
  · have halike := hout₂.ring.alike hout₁.ring hacc
    refine ⟨funext fun a ↦ ?_, halike.epktcnt, halike.erxwrpt⟩
    rcases Nat.lt_or_ge a 0x1800 with ha | ha
    · exact halike.mem a ha
    · exact hmem a ha

theorem interfaces_agree_initialized : ∃ (d d' : Enc28j60T) (s s₁ s₂ : Bus Chip),
    (live specimen).Returns (fun _ ↦ []) ((sendChunks [(fun _ ↦ 0, 1), (fun _ ↦ 7, 2)]).run d) s ((), d') s₁ ∧
      (live specimen).Returns (fun _ ↦ [])
        ((enc28j60SendPacket (fun k ↦ if k = 0 then 0 else 7) 3).run d) s ((), d') s₂ ∧
      s₁.chip.sent = s₂.chip.sent := by
  obtain ⟨d, s, hi⟩ := exists_initialized specimen true ⟨0x02, 0, 0, 0, 0, 0x01⟩
  have hd : d.txBuffPtr = txBufferStartAddr := by
    obtain ⟨-, ⟨d₀, rfl⟩, -⟩ := hi.booted
    rfl
  obtain ⟨d', s₁, s₂, hr₁, hr₂, -, hsent, -⟩ := interfaces_agree (.start hi) hd
    [(fun _ ↦ 0, 1), (fun _ ↦ 7, 2)] (fun k ↦ if k = 0 then 0 else 7) 3 rfl (by decide) (by decide)
    (fun _ ↦ []) fun _ ↦ []
  exact ⟨d, d', s, s₁, s₂, hr₁, hr₂, hsent⟩

end Agreement

end Enc28j60.Sending
