import Enc28j60.Ring

namespace Enc28j60.Transmission

open Interaction RegisterMap SpiSlave Port LowLayer Interface Access Banking DataSheet Transfers
open Quiet Boot Operation Procedures CircularMemory Enc28j60.Ring

/-- The transmit side of the chip: memory and registers, what has been sent, and where the memory
has been written. -/
structure Side where
  mem : ℕ → Byte
  regs : Cell → Byte
  sent : List Sent
  stored : List ℕ

variable {E : Type} {ev : E → Chip → Chip} {w : Watch} {tot : Prop} {si : Silicon} {c c' : Chip}
  {d : Enc28j60T} {X : Chip → Prop} {t : Side} {r : RegT} {v : Word} {a lo : ℕ} {bs cs : List Byte}
  {b m : Byte}

section Sides

/-- The start of the transmit buffer. -/
def base : ℕ := txBufferStartAddr.toNat

def Side.put (r : RegT) (v : Word) (t : Side) : Side :=
  { t with regs :=
      Function.update (Function.update t.regs (r.cell 0) (v.setWidth 8)) (r.cell 1) ((v >>> 8).setWidth 8) }

/-- Bytes are written from address `a` on. -/
def Side.fill (a : ℕ) (bs : List Byte) (t : Side) : Side :=
  { t.put EWRPTL (BitVec.ofNat 16 (a + bs.length)) with
    mem := store Chip.memAddr t.mem a bs
    stored := t.stored ++ (List.range bs.length).map fun i ↦ Chip.memAddr (a + i) }

/-- The frame that is sent when the transmit buffer ends at `v`. -/
def Side.frame (v : Word) (t : Side) : Sent :=
  ⟨t.mem base, load Chip.memAddr t.mem (base + 1) ((v.toNat % memSize + memSize - base) % memSize)⟩

def Side.launched (v : Word) (t : Side) : Side :=
  { (t.put ETXNDL v).put ETXSTL txBufferStartAddr with sent := t.sent ++ [t.frame v] }

/-- What a whole transmission makes of the transmit side. -/
def Side.shot (si : Silicon) (v : Word) (t : Side) : Side :=
  let p := v.toNat % memSize + 1
  { t.launched v with
    mem := store Chip.memAddr t.mem p ((List.range 7).map (si.tsv (t.sent.length + 1)))
    stored := t.stored ++ (List.range 7).map fun i ↦ Chip.memAddr (p + i) }

theorem Side.put_put (w : Word) (h : r.cell 0 ≠ r.cell 1) : (t.put r v).put r w = t.put r w := by
  simp only [Side.put, Function.update_comm h, Function.update_idem]

/-- Writing goes on where it has stopped. -/
theorem Side.fill_fill : (t.fill a bs).fill (a + bs.length) cs = t.fill a (bs ++ cs) := by
  have hput (x : Word) : (t.fill a bs).put EWRPTL x =
      { t.put EWRPTL x with
        mem := store Chip.memAddr t.mem a bs
        stored := t.stored ++ (List.range bs.length).map fun i ↦ Chip.memAddr (a + i) } := by
    have hidem := Side.put_put (t := t) (v := BitVec.ofNat 16 (a + bs.length)) x
      (show EWRPTL.cell 0 ≠ EWRPTL.cell 1 by decide)
    exact congrArg (fun u : Side ↦ ({ u with
        mem := store Chip.memAddr t.mem a bs
        stored := t.stored ++ (List.range bs.length).map fun i ↦ Chip.memAddr (a + i) } : Side)) hidem
  have hstored : (t.fill a bs).stored ++ (List.range cs.length).map (fun i ↦ Chip.memAddr (a + bs.length + i)) =
      t.stored ++ (List.range (bs ++ cs).length).map fun i ↦ Chip.memAddr (a + i) := by
    rw [List.length_append, List.range_add, List.map_append, List.map_map, ← List.append_assoc]
    simp only [Side.fill, Function.comp_def, Nat.add_assoc]
  have hmem : store Chip.memAddr (t.fill a bs).mem (a + bs.length) cs = store Chip.memAddr t.mem a (bs ++ cs) :=
    store_append.symm
  rw [Side.fill, hput, hstored, hmem, Nat.add_assoc, ← List.length_append]
  rfl

theorem circular_memAddr : Circular Chip.memAddr memSize := fun _ _ ↦ Iff.rfl

/-- The frame that is sent consists of the bytes written before. -/
theorem Side.frame_fill (hb : base + (b :: bs).length < memSize) (hv : v.toNat = base + bs.length) :
    (t.fill base (b :: bs)).frame v = ⟨b, bs⟩ := by
  have hbase : base = 0x1800 := rfl
  have hmem : load Chip.memAddr (t.fill base (b :: bs)).mem base (b :: bs).length = b :: bs :=
    load_store circular_memAddr (Nat.le_of_lt (Nat.lt_of_le_of_lt (Nat.le_add_left _ _) hb))
  rw [List.length_cons, load] at hmem
  injection hmem with hhead htail
  have hlen : (v.toNat % memSize + memSize - base) % memSize = bs.length := by
    rw [List.length_cons] at hb
    unfold memSize at *
    omega
  rw [Side.frame, hlen, htail]
  exact congrArg (Sent.mk · bs) hhead

end Sides

section Chips

/-- What is known of the receive side while the driver sends; the memory is followed from `lo` on,
where no arrival may change it. -/
structure Beside (si : Silicon) (ev : E → Chip → Chip) (lo : ℕ) (X : Chip → Prop) : Prop where
  congr : ∀ c c', Alike c c' → c'.pktcntSeen = c.pktcntSeen → X c → X c'
  arrive : ∀ c f, (∃ e, ev e = (Event.arrive f).act si) → Laid c → c.rxen = true → X c →
    X (c.arrive f) ∧ 0x1800 ≤ lo

/-- The chip's transmit side is `t`, from address `lo` on, and `m` is in `ECON1` but for the bank. -/
structure Outgoing (lo : ℕ) (X : Chip → Prop) (m : Byte) (t : Side) (c : Chip) : Prop where
  ring : X c
  laid : Laid c
  econ1 : c.econ1 &&& 0xFC = m
  mem : ∀ a, lo ≤ a → c.mem a = t.mem a
  regs : ∀ x, x ≠ ECON1.cell 0 → c.regs x = t.regs x
  sent : c.sent = t.sent
  stored : c.stored = t.stored

theorem mask_rxen : ∀ v : Byte, v &&& 0xFC = 0x04 ∨ v &&& 0xFC = 0x0C → v.getLsbD 2 = true := by decide

theorem mask_idle : ∀ v : Byte, v &&& 0xFC = 0x04 → v.getLsbD 3 = false := by decide

theorem mask_raised : ∀ v : Byte, v &&& 0xFC = 0x04 → (v ||| 0x08) &&& 0xFC = 0x0C := by decide

theorem mask_cleared : ∀ v : Byte, v &&& 0xFC = 0x0C → (v &&& ~~~0x08) &&& 0xFC = 0x04 := by decide

theorem Outgoing.arrive (h : Outgoing lo X m t c) (hX : Beside si ev lo X) (hm : m = 0x04 ∨ m = 0x0C)
    (f : Frame) (he : ∃ e, ev e = (Event.arrive f).act si) : Outgoing lo X m t (c.arrive f) := by
  have hrx : c.rxen = true := by
    refine mask_rxen _ ?_
    rw [h.econ1]
    exact hm
  obtain ⟨hx, hlo⟩ := hX.arrive c f he h.laid hrx h.ring
  refine ⟨hx, h.laid.congr fun x _ ↦ congrFun (c.arrive_regs f) x, ?_, fun a ha ↦ ?_, fun x hn ↦ ?_, ?_, ?_⟩
  · rw [Chip.econ1, c.arrive_regs]
    exact h.econ1
  · rw [h.laid.mem_arrive f (Nat.le_trans hlo ha), h.mem a ha]
  · rw [c.arrive_regs, h.regs x hn]
  · rw [sent_arrive, h.sent]
  · rw [stored_arrive, h.stored]

theorem Outgoing.workable (hev : Acts si ev) (hX : Beside si ev lo X) (hw : ∀ c, w.always c) :
    Workable w ev (Outgoing lo X 0x04 t) := by
  refine ⟨fun e c h ↦ ?_, fun c h ↦ mask_idle _ h.econ1, fun c b seen h ↦ ?_, fun c _ ↦ hw c⟩
  · obtain ⟨e', he⟩ := hev e
    rw [he]
    cases e' with
    | arrive f => exact h.arrive hX (.inl rfl) f ⟨e, he⟩
    | txDone =>
      have htx : c.txrts = false := mask_idle _ h.econ1
      simp only [Event.act, htx, Bool.false_eq_true, if_false]
      exact h
  · refine ⟨hX.congr c _ (alike_reseat b seen) rfl h.ring, h.laid.reseat b seen, ?_, h.mem, fun x hx ↦ ?_,
      h.sent, h.stored⟩
    · rw [econ1_reseat, (txrts_mask _ _).2.2, h.econ1]
    · rw [regs_reseat hx, h.regs x hx]

theorem Outgoing.put (h : Outgoing lo X m t c) (hX : Beside si ev lo X) (hr : Pointer r) (v : Word) :
    Outgoing lo X m (t.put r v) (put r v c) := by
  obtain ⟨h₀, h₁⟩ := pointer_cells hr
  have hregs (x : Cell) (hx : x ≠ ECON1.cell 0) : (Operation.put r v c).regs x = (t.put r v).regs x := by
    simp only [Operation.put, Chip.setReg, Side.put, Function.update_apply, h.regs x hx]
  refine ⟨hX.congr c _ (alike_put r v) rfl h.ring, h.laid.put (pointerCells_layout _ h₀)
    (pointerCells_layout _ h₁) v, ?_, h.mem, hregs, h.sent, h.stored⟩
  rw [Operation.put, Chip.econ1_setReg_of_ne (pointerCells_econ1 h₁),
    Chip.econ1_setReg_of_ne (pointerCells_econ1 h₀), h.econ1]

theorem Outgoing.ptr (h : Outgoing lo X m t c) (hr : Pointer r) (h₀ : t.regs (r.cell 0) = v.setWidth 8)
    (h₁ : t.regs (r.cell 1) = (v >>> 8).setWidth 8) : c.ptr r = v.toNat % memSize := by
  obtain ⟨hc₀, hc₁⟩ := pointer_cells hr
  rw [Chip.ptr, h.regs _ (pointerCells_econ1 hc₀), h.regs _ (pointerCells_econ1 hc₁), h₀, h₁, word_bytes]

/-- One more byte is written. -/
theorem Outgoing.writeBuf (h : Outgoing lo X m (t.fill a bs) c) (hX : Beside si ev lo X)
    (ha : base ≤ a) (hb : a + bs.length + 1 < memSize) (b : Byte) :
    Outgoing lo X m (t.fill a (bs ++ [b])) (c.writeBuf b) := by
  have hptr : c.ptr EWRPTL = a + bs.length := by
    rw [h.ptr (v := BitVec.ofNat 16 (a + bs.length)) (by decide) rfl rfl, BitVec.toNat_ofNat]
    unfold memSize at hb ⊢
    omega
  let c₁ : Chip := { c with
    mem := Function.update c.mem (a + bs.length) b, stored := c.stored ++ [a + bs.length] }
  have hwrite : c.writeBuf b = Operation.put EWRPTL (BitVec.ofNat 16 (a + (bs ++ [b]).length)) c₁ := by
    simp only [Chip.writeBuf, h.laid.autoinc, if_true, hptr, Nat.mod_eq_of_lt hb]
    rw [List.length_append]
    rfl
  have haddr : Chip.memAddr (a + bs.length) = a + bs.length := Nat.mod_eq_of_lt (Nat.lt_of_succ_lt hb)
  have hring : Alike c c₁ := by
    refine ⟨fun i hi ↦ Function.update_of_ne ?_ _ _, rfl, rfl, rfl, rfl⟩
    change 0x1800 ≤ a at ha
    omega
  have hstored : Outgoing lo X m { t.fill a bs with
      mem := store Chip.memAddr t.mem a (bs ++ [b])
      stored := t.stored ++ (List.range (bs ++ [b]).length).map fun i ↦ Chip.memAddr (a + i) } c₁ := by
    refine ⟨hX.congr c c₁ hring rfl h.ring, h.laid.congr fun _ _ ↦ rfl, h.econ1, fun i hi ↦ ?_, h.regs, h.sent, ?_⟩
    · rw [store_append]
      change Function.update c.mem (a + bs.length) b i =
        Function.update (store Chip.memAddr t.mem a bs) (Chip.memAddr (a + bs.length)) b i
      rw [haddr, Function.update_apply, Function.update_apply, h.mem i hi]
      rfl
    · rw [List.length_append, List.length_singleton, List.range_succ, List.map_append, ← List.append_assoc]
      change c.stored ++ [a + bs.length] = _
      rw [h.stored, List.map_singleton, haddr]
      rfl
  have hput := hstored.put hX (show Pointer EWRPTL by decide) (BitVec.ofNat 16 (a + (bs ++ [b]).length))
  have hside : Side.put EWRPTL (BitVec.ofNat 16 (a + (bs ++ [b]).length)) { t.fill a bs with
      mem := store Chip.memAddr t.mem a (bs ++ [b])
      stored := t.stored ++ (List.range (bs ++ [b]).length).map fun i ↦ Chip.memAddr (a + i) } =
      t.fill a (bs ++ [b]) := by
    have hidem := Side.put_put (t := t) (v := BitVec.ofNat 16 (a + bs.length))
      (BitVec.ofNat 16 (a + (bs ++ [b]).length)) (show EWRPTL.cell 0 ≠ EWRPTL.cell 1 by decide)
    exact congrArg (fun u : Side ↦ ({ u with
      mem := store Chip.memAddr t.mem a (bs ++ [b])
      stored := t.stored ++ (List.range (bs ++ [b]).length).map fun i ↦ Chip.memAddr (a + i) } : Side)) hidem
  rwa [hside, ← hwrite] at hput

/-- The transmit buffer, with room for the status vector behind it. -/
def Fits (v : Word) : Prop := base ≤ v.toNat + 1 ∧ v.toNat + 8 ≤ memSize

/-- The frame up to `v` lies in the memory that is followed. -/
def Known (lo : ℕ) (v : Word) : Prop := lo = 0 ∨ lo ≤ base ∧ base ≤ v.toNat

theorem Outgoing.launch (h : Outgoing lo X 0x04 t c) (hX : Beside si ev lo X) (hv : Fits v)
    (hk : Known lo v) : Outgoing lo X 0x0C (t.launched v) (launch si (aim v c)) := by
  have haim : Outgoing lo X 0x04 ((t.put ETXNDL v).put ETXSTL txBufferStartAddr) (aim v c) :=
    (h.put hX (show Pointer ETXNDL by decide) v).put hX (show Pointer ETXSTL by decide) txBufferStartAddr
  let c₁ : Chip := (aim v c).setReg (ECON1.cell 0) ((aim v c).econ1 ||| 0x08)
  have hraise : Outgoing lo X 0x0C ((t.put ETXNDL v).put ETXSTL txBufferStartAddr) c₁ := by
    refine ⟨hX.congr _ _ (alike_setReg _ _) rfl haim.ring, haim.laid.setReg (by decide) _, ?_, haim.mem,
      fun x hx ↦ ?_, haim.sent, haim.stored⟩
    · rw [Chip.econ1_setReg, if_pos rfl, mask_raised _ haim.econ1]
    · rw [regs_setReg, if_neg hx, haim.regs x hx]
  have hst : c₁.ptr ETXSTL = base :=
    hraise.ptr (r := ETXSTL) (v := txBufferStartAddr) (by decide) rfl rfl
  have hnd : c₁.ptr ETXNDL = v.toNat % memSize := hraise.ptr (by decide) rfl rfl
  have hbase : lo ≤ base := by
    rcases hk with rfl | hk
    · exact Nat.zero_le _
    · exact hk.1
  have hframe : (⟨c₁.mem base, load Chip.memAddr c₁.mem (base + 1)
      ((v.toNat % memSize + memSize - base) % memSize)⟩ : Sent) = t.frame v := by
    rw [Side.frame, hraise.mem base hbase]
    refine congrArg (Sent.mk _) (load_congr fun i hi ↦ hraise.mem _ ?_)
    rcases hk with rfl | ⟨-, hk⟩
    · exact Nat.zero_le _
    · obtain ⟨-, hv⟩ := hv
      unfold Chip.memAddr memSize at *
      unfold base at *
      omega
  refine ⟨hX.congr c₁ _ ⟨fun _ _ ↦ rfl, rfl, rfl, rfl, rfl⟩ rfl hraise.ring, hraise.laid.congr fun _ _ ↦ rfl,
    hraise.econ1, hraise.mem, hraise.regs, ?_, hraise.stored⟩
  rw [Operation.launch, Chip.startTx]
  change c₁.sent ++ [⟨c₁.mem (c₁.ptr ETXSTL), load Chip.memAddr c₁.mem (c₁.ptr ETXSTL + 1)
    ((c₁.ptr ETXNDL + memSize - c₁.ptr ETXSTL) % memSize)⟩] = t.sent ++ [t.frame v]
  rw [hst, hnd, hframe, hraise.sent]
  rfl

theorem Outgoing.finish (h : Outgoing lo X 0x0C (t.launched v) c) (hX : Beside si ev lo X) (hv : Fits v) :
    Outgoing lo X 0x04 (t.shot si v) (c.finishTx si) := by
  have hnd : c.ptr ETXNDL = v.toNat % memSize := h.ptr (by decide) rfl rfl
  have hlen : c.sent.length = t.sent.length + 1 := by
    rw [h.sent]
    exact List.length_append
  obtain ⟨hlow, hhigh⟩ := hv
  have hring : Alike c (c.finishTx si) := by
    refine ⟨fun i hi ↦ store_frame fun j hj ↦ ?_, rfl, rfl, rfl, rfl⟩
    rw [List.length_map, List.length_range] at hj
    rw [hnd]
    unfold Chip.memAddr memSize at *
    change 0x1800 ≤ _ at hlow
    omega
  refine ⟨hX.congr c _ hring rfl h.ring, h.laid.congr fun x hx ↦ ?_, ?_, fun i hi ↦ ?_, fun x hx ↦ ?_, h.sent, ?_⟩
  · refine Function.update_of_ne ?_ _ _
    rintro rfl
    exact absurd hx (by decide)
  · rw [Chip.econ1_finishTx, mask_cleared _ h.econ1]
  · change store Chip.memAddr c.mem (c.ptr ETXNDL + 1) ((List.range 7).map (si.tsv c.sent.length)) i = _
    rw [hnd, hlen]
    exact store_agree (h.mem i hi)
  · exact (Function.update_of_ne hx _ _).trans (h.regs x hx)
  · change c.stored ++ (List.range 7).map (fun i ↦ Chip.memAddr (c.ptr ETXNDL + 1 + i)) = _
    rw [hnd, h.stored]
    rfl

theorem Outgoing.sends (hev : Acts si ev) (hX : Beside si ev lo X) (hw : ∀ c, w.always c) (hv : Fits v) :
    Sends w ev si (Outgoing lo X 0x0C (t.launched v)) (Outgoing lo X 0x04 (t.shot si v)) where
  arrive _ f he h := h.arrive hX (.inr rfl) f he
  poll c _ _ h := ⟨hX.congr c _ ⟨fun _ _ ↦ rfl, rfl, rfl, rfl, rfl⟩ rfl h.ring, h.laid.congr fun _ _ ↦ rfl,
    h.econ1, h.mem, h.regs, h.sent, h.stored⟩
  finish _ h _ := h.finish hX hv
  watched c _ := hw c
  sent := Outgoing.workable hev hX hw

end Chips

section Calls

variable {buf : ℤ → Byte} {n : Word}

/-- The first `n` bytes of a buffer. -/
def contents (buf : ℤ → Byte) (n : ℕ) : List Byte := (List.range n).map fun k : ℕ ↦ buf k

theorem length_contents (n : ℕ) : (contents buf n).length = n := by
  rw [contents, List.length_map, List.length_range]

/-- The loop of `enc28j60_write_buf` counts in a signed half-word. -/
theorem contents_succ {n : ℕ} (h : n ≤ 32767) :
    contents buf (n + 1) = contents buf n ++ [buf (BitVec.ofNat 16 n).toInt] := by
  have hn : (BitVec.ofNat 16 n).toInt = n := by
    have hnat : (BitVec.ofNat 16 n).toNat = n := by
      rw [BitVec.toNat_ofNat]
      omega
    rw [BitVec.toInt_eq_toNat_of_lt (by omega), hnat]
  rw [contents, List.range_succ, List.map_append, hn]
  rfl

theorem fill_start (a : Word) : t.fill a.toNat [] = t.put EWRPTL a := by
  have ha : BitVec.ofNat 16 (a.toNat + 0) = a := BitVec.eq_of_toNat_eq (by rw [BitVec.toNat_ofNat]; omega)
  simp only [Side.fill, List.length_nil, ha, List.range_zero, List.map_nil, List.append_nil, store]
  rfl

theorem Outgoing.fill_step (hX : Beside si ev lo X) {a : Word} (ha : base ≤ a.toNat)
    (hn : a.toNat + n.toNat < memSize) (k : ℕ) (hk : k < n.toNat ∨ 32767 < n.toNat) (c : Chip)
    (h : Outgoing lo X 0x04 (t.fill a.toNat (contents buf k)) c) :
    Outgoing lo X 0x04 (t.fill a.toNat (contents buf (k + 1))) (c.writeBuf (buf (BitVec.ofNat 16 k).toInt)) := by
  have hfit : k < n.toNat ∧ n.toNat ≤ 32767 := by
    unfold memSize at hn
    omega
  rw [contents_succ (by omega)]
  refine h.writeBuf hX ha ?_ _
  rw [length_contents]
  omega

theorem room_ends {a : Word} (hn : a.toNat + n.toNat < memSize) : n.toNat ≤ 32767 := by
  unfold memSize at hn
  omega

/-- `enc28j60_write_to_tx` writes at the driver's pointer and moves it on. -/
theorem spec_write (hev : Acts si ev) (hX : Beside si ev lo X) (hw : ∀ c, w.always c)
    (ha : base ≤ d.txBuffPtr.toNat) (hn : d.txBuffPtr.toNat + n.toNat < memSize) :
    (station w ev tot si).Spec (At (station w ev tot si) d (Outgoing lo X 0x04 t)) (enc28j60WriteToTx buf n)
      fun _ ↦ At (station w ev tot si) { d with bank := .bank0, txBuffPtr := d.txBuffPtr + n }
        (Outgoing lo X 0x04 (t.fill d.txBuffPtr.toNat (contents buf n.toNat))) := by
  refine (spec_writeToTx (W := fun k ↦ Outgoing lo X 0x04 (t.fill d.txBuffPtr.toNat (contents buf k))) hev
    (Outgoing.workable hev hX hw) (fun _ ↦ Outgoing.workable hev hX hw) (fun _ ↦ room_ends hn)
    (fun c h ↦ ?_) (fun c h ↦ h.laid.autoinc) (Outgoing.fill_step hX ha hn)).mono
    (fun _ _ h ↦ h) fun _ _ _ h ↦ ⟨h.1, h.2.1, h.2.2.2⟩
  rw [contents, List.range_zero, List.map_nil, fill_start]
  exact h.put hX (by decide) _

/-- `enc28j60_ready_to_send` sends what stands before the driver's pointer. -/
theorem spec_ready (hev : Acts si ev) (hX : Beside si ev lo X) (hw : ∀ c, w.always c ∧ w.start c)
    (hv : Fits (d.txBuffPtr - 1)) (hk : Known lo (d.txBuffPtr - 1)) :
    (station w ev tot si).Spec (At (station w ev tot si) d (Outgoing lo X 0x04 t)) enc28j60ReadyToSend
      fun _ ↦ At (station w ev tot si) { d with bank := .bank0, txBuffPtr := txBufferStartAddr }
        (Outgoing lo X 0x04 (t.shot si (d.txBuffPtr - 1))) :=
  spec_readyToSend hev (Outgoing.workable hev hX fun c ↦ (hw c).1)
    (Outgoing.sends hev hX (fun c ↦ (hw c).1) hv) fun _ h ↦ ⟨(hw _).2, h.launch hX hv hk⟩

theorem spec_send (hev : Acts si ev) (hX : Beside si ev lo X) (hw : ∀ c, w.always c ∧ w.start c)
    (hn : base + n.toNat < memSize) (hv : Fits (txBufferStartAddr + n - 1))
    (hk : Known lo (txBufferStartAddr + n - 1)) :
    (station w ev tot si).Spec (At (station w ev tot si) d (Outgoing lo X 0x04 t)) (enc28j60SendPacket buf n)
      fun _ ↦ At (station w ev tot si) { d with bank := .bank0 }
        (Outgoing lo X 0x04 ((t.fill base (contents buf n.toNat)).shot si (txBufferStartAddr + n - 1))) := by
  refine (spec_sendPacket (W := fun k ↦ Outgoing lo X 0x04 (t.fill base (contents buf k))) hev
    (Outgoing.workable hev hX fun c ↦ (hw c).1) (fun _ ↦ Outgoing.workable hev hX fun c ↦ (hw c).1)
    (fun _ ↦ room_ends (a := txBufferStartAddr) hn) (fun c h ↦ ?_) (fun c h ↦ h.laid.autoinc)
    (Outgoing.fill_step (a := txBufferStartAddr) hX (Nat.le_refl base) hn)
    (Outgoing.sends hev hX (fun c ↦ (hw c).1) hv) fun _ h ↦ ⟨(hw _).2, h.launch hX hv hk⟩).mono
    (fun _ _ h ↦ h) fun _ _ _ h ↦ ⟨h.1, h.2.1, h.2.2.2⟩
  rw [contents, List.range_zero, List.map_nil, base, fill_start]
  exact h.put hX (by decide) _

end Calls

end Enc28j60.Transmission
