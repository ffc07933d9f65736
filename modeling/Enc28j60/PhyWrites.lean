import Enc28j60.Quiet

namespace Enc28j60.PhyWrites

open Interaction RegisterMap SpiSlave Port LowLayer Access Banking DataSheet Miim Quiet

/-- A chip on which nothing happens but what it is asked for. -/
def still : Empty → Chip → Chip := nofun

def alone (tot : Prop) (si : Silicon) : Setting Chip Empty := ⟨chip si, still, .anything, tot⟩

abbrev PhyReg := {r : RegT // r ∈ registerMap ∧ r.type = .phyR}

def PhyReg.addr (r : PhyReg) : BitVec 5 := r.1.regAddr.setWidth 5

def phyWrites : List (PhyReg × Word) → Drv Unit
  | [] => pure ()
  | w :: ws => do
    enc28j60WriteReg w.1.1 w.2
    phyWrites ws

/-- Each write has made one MIIM write and nothing else has changed, apart from `BSEL`, the MII
registers that a write uses and `TXRTS`, which the chip may have cleared. -/
structure Wrote (ws : List (PhyReg × Word)) (c c' : Chip) : Prop where
  miim : c'.miim = c.miim ++ ws.map fun w ↦ .write w.1.addr w.2
  phy : c'.phy = ws.foldl (fun p w ↦ Function.update p w.1.addr w.2) c.phy
  peek : ∀ x, x ∉ [ECON1.cell 0, MIREGADR.cell 0, MIWRL.cell 0, MIWRL.cell 1, MISTAT.cell 0] →
    c'.peek x = c.peek x
  erxrdpt : c'.erxrdpt = c.erxrdpt
  econ1 : ∀ i, 2 ≤ i → i ≠ 3 → c'.econ1.getLsbD i = c.econ1.getLsbD i
  txrts : c'.txrts = true → c.txrts = true

/-- What neither a bank change nor the end of a transmission touches, apart from the registers. -/
def remainder (c : Chip) : (BitVec 5 → Word) × Byte × Word × Word × Option (Miim × ℕ) × List Miim × ℕ :=
  (c.phy, c.epktcnt, c.erxwrpt, c.erxrdpt, c.mii, c.miim, c.draws)

/-- `c` is `c₀` but for the bank and the progress of a transmission. -/
structure Kept (c₀ c : Chip) : Prop where
  regs : ∀ x, x ≠ ECON1.cell 0 → c.regs x = c₀.regs x
  econ1 : ∀ i, 2 ≤ i → i ≠ 3 → c.econ1.getLsbD i = c₀.econ1.getLsbD i
  txrts : c.txrts = true → c₀.txrts = true
  rest : remainder c = remainder c₀

variable {tot : Prop} {si : Silicon} {c c₀ : Chip} {d : Enc28j60T}

theorem alone_lawful : Lawful (alone tot si) := lawful nofun

theorem alone_stable (P : Chip → Prop) : (alone tot si).Stable P := nofun

theorem Kept.refl (c : Chip) : Kept c c := ⟨fun _ _ ↦ rfl, fun _ _ _ ↦ rfl, id, rfl⟩

section BankChange

theorem bsel_bits (b : BankT) {i : ℕ} (hi : 2 ≤ i) (v : Byte) :
    (Econ1Reg.bsel.set b.toNat v).getLsbD i = v.getLsbD i := by
  have hmask : (Econ1Reg.bsel.mask 8).getLsbD i = false := by
    have h : (3 : ℕ) < 2 ^ i := Nat.lt_of_lt_of_le (by decide : 3 < 2 ^ 2) (Nat.pow_le_pow_right (by decide) hi)
    rw [Field.mask, BitVec.getLsbD_ofNat]
    exact Bool.and_eq_false_imp.mpr fun _ ↦ Nat.testBit_lt_two_pow h
  rw [Field.set, BitVec.getLsbD_or, BitVec.getLsbD_and, BitVec.getLsbD_and, BitVec.getLsbD_not, hmask]
  by_cases h : i < 8
  · simp [h]
  · simp [BitVec.getLsbD_of_ge v i (by omega)]

theorem getLsbD_clearTxrts (v : Byte) (i : ℕ) :
    (v &&& ~~~0x08).getLsbD i = (v.getLsbD i && !decide (i = 3)) := by
  have h : ∀ i < 8, (0x08 : Byte).getLsbD i = decide (i = 3) := by decide
  by_cases hi : i < 8
  · rw [BitVec.getLsbD_and, BitVec.getLsbD_not, h i hi]
    simp [hi]
  · rw [BitVec.getLsbD_of_ge _ i (by omega), BitVec.getLsbD_of_ge v i (by omega), Bool.false_and]

theorem Kept.finishTx (h : Kept c₀ c) : Kept c₀ (c.finishTx si) := by
  refine ⟨fun x hx ↦ ?_, fun i hi hn ↦ ?_, fun ht ↦ ?_, h.rest⟩
  · exact (Function.update_of_ne hx _ _).trans (h.regs x hx)
  · rw [Chip.econ1_finishTx, getLsbD_clearTxrts, decide_eq_false hn, Bool.not_false, Bool.and_true]
    exact h.econ1 i hi hn
  · rw [Chip.txrts, Chip.econ1_finishTx, getLsbD_clearTxrts] at ht
    simp at ht

/-- A read of `ECON1` may be the moment at which a transmission ends. -/
theorem Kept.readEcon1 (h : Kept c₀ c) : Kept c₀ (c.readEcon1 si).2 ∧
    (c.readEcon1 si).1 = (c.readEcon1 si).2.econ1 := by
  refine ⟨?_, rfl⟩
  unfold Chip.readEcon1
  split
  · cases c.txWait with
    | zero =>
      have h' : Kept c₀ (c.finishTx si) := h.finishTx
      exact ⟨h'.regs, h'.econ1, h'.txrts, h'.rest⟩
    | succ n => exact ⟨h.regs, h.econ1, h.txrts, h.rest⟩
  · exact ⟨h.regs, h.econ1, h.txrts, h.rest⟩

theorem Kept.writeEcon1 (h : Kept c₀ c) (b : BankT) :
    Kept c₀ (c.writeCell si (ECON1.cell 0) (Econ1Reg.bsel.set b.toNat c.econ1)) := by
  have hbit := bsel_bits b (i := 3) (by decide) c.econ1
  have hw : c.writeCell si (ECON1.cell 0) (Econ1Reg.bsel.set b.toNat c.econ1) =
      c.setReg (ECON1.cell 0) (Econ1Reg.bsel.set b.toNat c.econ1) := by
    rw [Chip.writeCell, if_pos rfl, Chip.writeEcon1, if_neg]
    rw [hbit]
    exact fun ht ↦ ht.2 ht.1
  rw [hw]
  refine ⟨fun x hx ↦ ?_, fun i hi hn ↦ ?_, fun ht ↦ ?_, h.rest⟩
  · rw [regs_setReg, if_neg hx]
    exact h.regs x hx
  · rw [Chip.econ1_setReg, if_pos rfl, bsel_bits b hi]
    exact h.econ1 i hi hn
  · rw [Chip.txrts, Chip.econ1_setReg, if_pos rfl, hbit] at ht
    exact h.txrts ht

theorem bankable_kept_of {g : Guard Chip} (hr : ∀ o c, g.read ⟨o, ECON1, 0⟩ c)
    (hw : ∀ o b c, g.write ⟨o, ECON1, 0⟩ b c) :
    Bankable (⟨chip si, still, g, tot⟩ : Setting Chip Empty) (Kept c₀) := by
  refine ⟨nofun, fun c hc ↦ ⟨hr _ _, fun c' ↦ c' = (c.readEcon1 si).2, nofun, rfl, ?_⟩⟩
  intro b c' h
  subst h
  obtain ⟨hk, hv⟩ : Kept c₀ (c.readEcon1 si).2 ∧ (c.readEcon1 si).1 = (c.readEcon1 si).2.econ1 :=
    hc.readEcon1
  refine ⟨hw _ _ _, ?_⟩
  change Kept c₀ ((c.readEcon1 si).2.writeCell si (ECON1.cell 0)
    (Econ1Reg.bsel.set b.toNat (c.readEcon1 si).1))
  rw [hv]
  exact hk.writeEcon1 b

theorem bankable_kept : Bankable (alone tot si) (Kept c₀) :=
  bankable_kept_of (fun _ _ ↦ trivial) fun _ _ _ ↦ trivial

end BankChange

section Stages

variable {a : Byte} {v : Word}

theorem Kept.setReg (h : Kept c₀ c) {x : Cell} (hx : x ≠ ECON1.cell 0) (b : Byte) :
    Kept (c₀.setReg x b) (c.setReg x b) := by
  have he (c : Chip) : (c.setReg x b).econ1 = c.econ1 := c.econ1_setReg_of_ne hx b
  refine ⟨fun y hy ↦ ?_, fun i hi hn ↦ ?_, fun ht ↦ ?_, h.rest⟩
  · rw [regs_setReg, regs_setReg, h.regs y hy]
  · rw [he, he]
    exact h.econ1 i hi hn
  · rw [Chip.txrts, he] at ht ⊢
    exact h.txrts ht

theorem Kept.startMiim (h : Kept c₀ c) (op : Miim) : Kept (c₀.startMiim si op) (c.startMiim si op) := by
  obtain ⟨hregs, hecon1, htxrts, hside⟩ := h
  refine ⟨hregs, hecon1, htxrts, ?_⟩
  simp only [remainder, Prod.mk.injEq, Chip.startMiim] at hside ⊢
  obtain ⟨h₁, h₂, h₃, h₄, h₅, h₆, h₇⟩ := hside
  exact ⟨h₁, h₂, h₃, h₄, by rw [h₇], by rw [h₆], by rw [h₇]⟩

theorem Kept.finishWrite (h : Kept c₀ c) (x : BitVec 5) :
    Kept (c₀.finishMiim (.write x v)) (c.finishMiim (.write x v)) := by
  obtain ⟨hregs, hecon1, htxrts, hrest⟩ := h
  refine ⟨hregs, hecon1, htxrts, ?_⟩
  simp only [remainder, Prod.mk.injEq, Chip.finishMiim] at hrest ⊢
  obtain ⟨h₁, h₂, h₃, h₄, -, h₆, h₇⟩ := hrest
  exact ⟨by rw [h₁], h₂, h₃, h₄, trivial, h₆, h₇⟩

/-- Once all three commands have reached bank 2, the chip is busy with the write. -/
theorem Kept.start (h : Kept ((c₀.setReg (MIREGADR.cell 0) a).setReg (MIWRL.cell 0) (v.setWidth 8)) c) :
    Kept { place si MIWRL v (c₀.writeCell si (MIREGADR.cell 0) a) with
        mii := some (.write (a.setWidth 5) v, si.delay c₀.draws) }
      (c.writeCell si (MIWRL.cell 1) ((v >>> 8).setWidth 8)) := by
  have hmii : (place si MIWRL v (c₀.writeCell si (MIREGADR.cell 0) a)).mii =
      some (.write (a.setWidth 5) v, si.delay c₀.draws) := mii_miwr a v
  rw [← hmii]
  have hplain : c₀.writeCell si (MIREGADR.cell 0) a = c₀.setReg (MIREGADR.cell 0) a :=
    writeCell_plain (by decide) a
  have hlow : (c₀.setReg (MIREGADR.cell 0) a).writeCell si (MIWRL.cell 0) (v.setWidth 8) =
      (c₀.setReg (MIREGADR.cell 0) a).setReg (MIWRL.cell 0) (v.setWidth 8) :=
    writeCell_plain (by decide) _
  have hplace : place si MIWRL v (c₀.writeCell si (MIREGADR.cell 0) a) =
      ((c₀.setReg (MIREGADR.cell 0) a).setReg (MIWRL.cell 0) (v.setWidth 8)).writeCell si
        (MIWRL.cell 1) ((v >>> 8).setWidth 8) := by
    rw [place_miwr, hplain, hlow]
  change Kept (place si MIWRL v (c₀.writeCell si (MIREGADR.cell 0) a)) _
  rw [hplace, writeCell_miwrh, writeCell_miwrh, h.regs _ (by decide), h.regs _ (by decide)]
  exact (h.setReg (by decide) _).startMiim _

theorem answer_kept (x : BitVec 5) (n : ℕ) (h : Kept { c₀ with mii := some (.write x v, n) } c) :
    Answer (alone tot si) (fun n ↦ Kept { c₀ with mii := some (.write x v, n) })
      (Kept (c₀.finishMiim (.write x v))) n (c.readCell si (MISTAT.cell 0)).1
      (c.readCell si (MISTAT.cell 0)).2 := by
  have hr : c.readCell si (MISTAT.cell 0) = c.readMistat := rfl
  have hmii : c.mii = some (.write x v, n) := congrArg (·.2.2.2.2.1) h.rest
  have hbits := bit0_clear (c.regs (MISTAT.cell 0))
  rw [hr, Chip.readMistat, hmii]
  cases n with
  | zero => exact ⟨fun hv ↦ absurd (hv.symm.trans hbits.1) nofun, fun _ ↦ h.finishWrite x⟩
  | succ n =>
    refine ⟨fun _ ↦ ⟨n, fun _ ↦ Nat.lt_succ_self n, h.regs, h.econ1, h.txrts, ?_⟩,
      fun hv ↦ absurd hbits.2 hv⟩
    have hrest := h.rest
    simp only [remainder, Prod.mk.injEq] at hrest ⊢
    obtain ⟨h₁, h₂, h₃, h₄, -, h₆, h₇⟩ := hrest
    exact ⟨h₁, h₂, h₃, h₄, trivial, h₆, h₇⟩

theorem Kept.peek (h : Kept c₀ c) {x : Cell} (hx : x ≠ ECON1.cell 0) : c.peek x = c₀.peek x := by
  have hrest := h.rest
  simp only [remainder, Prod.mk.injEq] at hrest
  unfold Chip.peek
  rw [h.regs x hx, hrest.2.1, hrest.2.2.1]

end Stages

section Specs

variable {r : PhyReg} {v : Word}

/-- In bank 2 the address `k` is a register that only stores. -/
theorem Kept.store (h : Kept c₀ c) (hb : c.econ1.setWidth 2 = 2) {k : BitVec 5}
    (hk : k = 0x14 ∨ k = 0x16) (b : Byte) :
    Kept (c₀.setReg (2, k) b) (c.writeCell si (cell (c.econ1.setWidth 2) k) b) ∧
      (c.writeCell si (cell (c.econ1.setWidth 2) k) b).econ1.setWidth 2 = 2 := by
  have hcell : cell 2 k = (2, k) := by rcases hk with rfl | rfl <;> rfl
  have hne : ((2, k) : Cell) ≠ ECON1.cell 0 := by rcases hk with rfl | rfl <;> decide
  have hplain : c.writeCell si (2, k) b = c.setReg (2, k) b := by
    rcases hk with rfl | rfl <;> exact writeCell_plain (by decide) b
  rw [hb, hcell, hplain]
  exact ⟨h.setReg hne b, by rw [Chip.econ1_setReg_of_ne hne, hb]⟩

/-- A write that finds bank 2 selected. -/
theorem spec_written : (alone tot si).Spec
    (At (alone tot si) d fun c ↦ Kept c₀ c ∧ c.econ1.setWidth 2 = 2) (enc28j60WriteReg r.1 v)
    fun _ ↦ At (alone tot si) (touch MISTAT d) (Kept (phyWrite si r.1.regAddr v c₀)) := by
  let a := r.1.regAddr
  let c₁ := c₀.setReg (MIREGADR.cell 0) a
  let c₂ := c₁.setReg (MIWRL.cell 0) (v.setWidth 8)
  refine spec_writePhy alone_lawful r.2.1 r.2.2
    (F := fun c ↦ Kept c₁ c ∧ c.econ1.setWidth 2 = 2)
    (G := fun c ↦ Kept c₂ c ∧ c.econ1.setWidth 2 = 2)
    (W := fun n ↦ Kept { place si MIWRL v (c₀.writeCell si (MIREGADR.cell 0) a) with
      mii := some (.write (a.setWidth 5) v, n) })
    (alone_stable _) (alone_stable _) (alone_stable _) (fun _ ↦ bankable_kept) (alone_stable _)
    ?_ ?_ ?_ fun n c h _ ↦ ⟨trivial, answer_kept _ n h⟩
  · rintro c - ⟨hc, hb⟩
    exact ⟨trivial, hc.store hb (.inl rfl) a⟩
  · rintro c - ⟨hc, hb⟩
    exact ⟨trivial, hc.store hb (.inr rfl) (v.setWidth 8)⟩
  · rintro c - ⟨hc, hb⟩
    refine ⟨trivial, si.delay c₀.draws, ?_⟩
    have hcell : cell ((alone tot si).device.bsel c) 0x17 = MIWRL.cell 1 := congrArg (cell · 0x17) hb
    rw [hcell]
    exact hc.start

theorem miim_writeCell {x : Cell} (h : x ∉ [MIWRL.cell 1, MICMD.cell 0]) (b : Byte) :
    (c.writeCell si x b).miim = c.miim := by
  simp only [List.mem_cons, List.not_mem_nil, or_false, not_or] at h
  unfold Chip.writeCell Chip.writeEcon1
  simp only [h.1, h.2, if_false, false_and]
  split_ifs <;> rfl

theorem miim_readEcon1 : (c.readEcon1 si).2.miim = c.miim := by
  unfold Chip.readEcon1
  split
  · cases c.txWait <;> rfl
  · rfl

theorem miim_finishMiim (op : Miim) : (c.finishMiim op).miim = c.miim := by
  cases op <;> rfl

theorem miim_readCell (x : Cell) : (c.readCell si x).2.miim = c.miim := by
  unfold Chip.readCell
  split_ifs
  · exact miim_readEcon1
  · unfold Chip.readEstat
    cases c.clkWait <;> rfl
  · unfold Chip.readMistat
    split
    · rfl
    · exact miim_finishMiim _
    · rfl
  · rfl
  · rfl

theorem bankable_miim {l : List Miim} : Bankable (alone tot si) fun c ↦ c.miim = l := by
  refine ⟨alone_stable _, fun c hc ↦ ⟨trivial, fun c ↦ c.miim = l, alone_stable _, ?_, ?_⟩⟩
  · exact (miim_readCell _).trans hc
  · exact fun b c hc ↦ ⟨trivial, (miim_writeCell (by decide) _).trans hc⟩

/-- In any other bank the three addresses of a write start nothing. -/
theorem cell_missed : ∀ b : BitVec 2, b ≠ 2 → ∀ k ∈ [(0x14 : BitVec 5), 0x16, 0x17],
    cell b k ∉ [MIWRL.cell 1, MICMD.cell 0] ∧ cell b k ≠ ECON1.cell 0 := by
  decide

/-- A write that finds another bank selected. -/
theorem spec_missed {l : List Miim} : (alone False si).Spec
    (At (alone False si) d fun c ↦ c.miim = l ∧ c.econ1.setWidth 2 ≠ 2) (enc28j60WriteReg r.1 v)
    fun _ ↦ At (alone False si) (touch MISTAT d) fun c ↦ c.miim = l := by
  have hmiss {k : BitVec 5} (hk : k ∈ [(0x14 : BitVec 5), 0x16, 0x17]) {c : Chip} (b : Byte)
      (h : c.miim = l ∧ c.econ1.setWidth 2 ≠ 2) :
      (c.writeCell si (cell (c.econ1.setWidth 2) k) b).miim = l ∧
        (c.writeCell si (cell (c.econ1.setWidth 2) k) b).econ1.setWidth 2 ≠ 2 := by
    obtain ⟨hm, he⟩ := cell_missed _ h.2 k hk
    rw [miim_writeCell hm, Chip.econ1_writeCell, if_neg he]
    exact h
  refine spec_writePhy alone_lawful r.2.1 r.2.2 (F := fun c ↦ c.miim = l ∧ c.econ1.setWidth 2 ≠ 2)
    (G := fun c ↦ c.miim = l ∧ c.econ1.setWidth 2 ≠ 2) (W := fun _ c ↦ c.miim = l)
    (alone_stable _) (alone_stable _) (alone_stable _) (fun _ ↦ bankable_miim) (alone_stable _)
    (fun c _ h ↦ ⟨trivial, hmiss (by decide) _ h⟩) (fun c _ h ↦ ⟨trivial, hmiss (by decide) _ h⟩)
    (fun c _ h ↦ ⟨trivial, 0, (hmiss (by decide) _ h).1⟩) fun n c h _ ↦ ⟨trivial, ?_⟩
  have hread : (c.readCell si (MISTAT.cell 0)).2.miim = l := (miim_readCell _).trans h
  exact ⟨fun _ ↦ ⟨0, nofun, hread⟩, fun _ ↦ hread⟩

theorem phyWrite_eq (a : Byte) : phyWrite si a v c =
    ((((c.setReg (MIREGADR.cell 0) a).setReg (MIWRL.cell 0) (v.setWidth 8)).setReg (MIWRL.cell 1)
      ((v >>> 8).setWidth 8)).startMiim si (.write (a.setWidth 5) v)).finishMiim
        (.write (a.setWidth 5) v) := by
  rw [phyWrite, place_miwr, writeCell_plain (x := MIREGADR.cell 0) (by decide),
    writeCell_plain (x := MIWRL.cell 0) (by decide), writeCell_miwrh, regs_setReg,
    if_neg (by decide), regs_setReg, if_pos rfl, regs_setReg, if_pos rfl, word_bytes]

theorem wrote_of_kept (h : Kept (phyWrite si r.1.regAddr v c₀) c) : Wrote [(r, v)] c₀ c := by
  have hrest := h.rest
  simp only [remainder, Prod.mk.injEq, phyWrite_eq] at hrest
  obtain ⟨hphy, hpkt, hwrpt, hrdpt, -, hmiim, -⟩ := hrest
  have hecon1 : (phyWrite si r.1.regAddr v c₀).econ1 = c₀.econ1 := regs_phyWrite _ _ (by decide)
  refine ⟨hmiim, hphy, fun x hx ↦ ?_, hrdpt, fun i hi hn ↦ ?_, fun ht ↦ ?_⟩
  · simp only [List.mem_cons, List.not_mem_nil, or_false, not_or] at hx
    have hregs : c.regs x = c₀.regs x := by
      rw [h.regs x hx.1, regs_phyWrite]
      simp only [List.mem_cons, List.not_mem_nil, or_false, not_or]
      exact ⟨hx.2.1, hx.2.2.1, hx.2.2.2.1⟩
    unfold Chip.peek
    rw [hregs, hpkt, hwrpt]
    rfl
  · rw [← hecon1]
    exact h.econ1 i hi hn
  · rw [Chip.txrts, ← hecon1]
    exact h.txrts ht

end Specs

section Runs

variable {r : PhyReg} {v : Word}

/-- One write adds at most one MIIM write, and leaves bank 3 selected. -/
theorem does_write (hd : Coherent (chip si) d c) : (alone False si).Does (enc28j60WriteReg r.1 v)
    (fun _ d' s' ↦ s'.window = .high ∧ d'.bank = .bank3 ∧ Coherent (chip si) d' s'.chip ∧
      (if c.econ1.setWidth 2 = 2 then Wrote [(r, v)] c s'.chip else s'.chip.miim = c.miim)) d
    ⟨.high, c⟩ := by
  split
  next hb =>
    refine Machine.dwp_mono (spec_written d ⟨.high, c⟩ (.inl rfl) ⟨rfl, hd, .refl c, hb⟩) ?_
    rintro - d' s' ⟨hw, rfl, hcoh, hk⟩
    exact ⟨hw, rfl, hcoh, wrote_of_kept hk⟩
  next hb =>
    refine Machine.dwp_mono (spec_missed d ⟨.high, c⟩ (.inl rfl) ⟨rfl, hd, rfl, hb⟩) ?_
    rintro - d' s' ⟨hw, rfl, hcoh, hm⟩
    exact ⟨hw, rfl, hcoh, hm⟩

/-- Writes that follow one another start nothing, since each leaves bank 3 selected. -/
theorem does_none (ws : List (PhyReg × Word)) (hb : d.bank = .bank3) (hd : Coherent (chip si) d c) :
    (alone False si).Does (phyWrites ws) (fun _ _ s' ↦ s'.chip.miim = c.miim) d ⟨.high, c⟩ := by
  induction ws generalizing d c with
  | nil => exact rfl
  | cons w ws ih =>
    have hsel : c.econ1.setWidth 2 ≠ 2 := by
      have h3 := hd.resolve_left (by rw [hb]; nofun)
      rw [hb] at h3
      exact fun h2 ↦ absurd (h2.symm.trans h3) (by decide)
    refine Machine.dwp_bind.mpr (Machine.dwp_mono (does_write hd) ?_)
    rintro - d' ⟨win, c'⟩ ⟨rfl, hb', hd', hm⟩
    rw [if_neg hsel] at hm
    exact Machine.dwp_mono (ih hb' hd') fun _ _ _ h ↦ h.trans hm

theorem does_atMostOne (w : PhyReg × Word) (ws : List (PhyReg × Word)) (hd : Coherent (chip si) d c) :
    (alone False si).Does (phyWrites (w :: ws))
      (fun _ _ s' ↦ s'.chip.miim.length ≤ c.miim.length + 1) d ⟨.high, c⟩ := by
  refine Machine.dwp_bind.mpr (Machine.dwp_mono (does_write hd) ?_)
  rintro - d' ⟨win, c'⟩ ⟨rfl, hb', hd', hm⟩
  refine Machine.dwp_mono (does_none ws hb' hd') fun _ _ s' h ↦ ?_
  rw [h]
  split at hm
  next =>
    rw [hm.miim, List.length_append, List.length_map]
    exact Nat.le_refl _
  next =>
    rw [hm]
    exact Nat.le_succ _

theorem phyWrites_singleton (w : PhyReg × Word) : phyWrites [w] = enc28j60WriteReg w.1.1 w.2 :=
  funext fun _ ↦ Program.bind_done _

theorem returns_written (hd : Coherent (chip si) d c) (hb : c.econ1.setWidth 2 = 2)
    (σ : ℕ → List Empty) : ∃ d' s', (Port.machine (chip si) still).Returns σ
      ((enc28j60WriteReg r.1 v).run d) ⟨.high, c⟩ ((), d') s' ∧ Wrote [(r, v)] c s'.chip := by
  obtain ⟨⟨⟩, d', s', hr, -, -, -, hk⟩ := Machine.dwp_total
    (spec_written (r := r) (v := v) d ⟨.high, c⟩ (.inl rfl) ⟨rfl, hd, .refl c, hb⟩) σ
  exact ⟨d', s', hr, wrote_of_kept hk⟩

theorem written_bsel (hd : Coherent (chip si) d c) {σ : ℕ → List Empty} {d' : Enc28j60T}
    {s' : Bus Chip} (hr : (Port.machine (chip si) still).Returns σ ((enc28j60WriteReg r.1 v).run d)
      ⟨.high, c⟩ ((), d') s') (hw : Wrote [(r, v)] c s'.chip) : c.econ1.setWidth 2 = 2 := by
  by_contra hb
  obtain ⟨-, -, -, hm⟩ := Machine.dwp_returns (does_write hd) hr
  rw [if_neg hb, hw.miim] at hm
  simp at hm

/-- Exactly when bank 2 happens to be selected does a write reach the PHY; and of writes that
follow one another, at most the first does. -/
theorem phyWrite_reaches_iff (hd : Coherent (chip si) d c) (σ : ℕ → List Empty) :
    (∀ (r : PhyReg) (v : Word), (∃ d' s', (Port.machine (chip si) still).Returns σ
        ((enc28j60WriteReg r.1 v).run d) ⟨.high, c⟩ ((), d') s' ∧ Wrote [(r, v)] c s'.chip) ↔
      (chip si).bsel c = 2) ∧
    ∀ ws : List (PhyReg × Word), (∃ d' s', (Port.machine (chip si) still).Returns σ
        ((phyWrites ws).run d) ⟨.high, c⟩ ((), d') s' ∧ Wrote ws c s'.chip) ↔
      ws.length ≤ 1 ∧ (ws ≠ [] → (chip si).bsel c = 2) := by
  refine ⟨fun r v ↦ ⟨fun ⟨d', s', hr, hw⟩ ↦ written_bsel hd hr hw, fun hb ↦ returns_written hd hb σ⟩,
    fun ws ↦ ⟨?_, ?_⟩⟩
  · rintro ⟨d', s', hr, hw⟩
    match ws with
    | [] => exact ⟨Nat.zero_le 1, fun h ↦ absurd rfl h⟩
    | [w] =>
      rw [phyWrites_singleton] at hr
      exact ⟨Nat.le_refl 1, fun _ ↦ written_bsel hd hr hw⟩
    | w :: w' :: ws =>
      have hlen := Machine.dwp_returns (does_atMostOne w (w' :: ws) hd) hr
      rw [hw.miim] at hlen
      simp only [List.length_append, List.length_map, List.length_cons] at hlen
      omega
  · rintro ⟨hlen, hb⟩
    match ws, hlen with
    | [], _ =>
      exact ⟨d, ⟨.high, c⟩, ⟨0, rfl⟩, (List.append_nil _).symm, rfl, fun _ _ ↦ rfl, rfl,
        fun _ _ _ ↦ rfl, id⟩
    | [w], _ =>
      rw [phyWrites_singleton]
      exact returns_written hd (hb (List.cons_ne_nil _ _)) σ

theorem phyWrite_reaches_iff_bank2 : ∃ d' s', (Port.machine (chip specimen) still).Returns (fun _ ↦ [])
    ((enc28j60WriteReg PHLCON 0x3883).run ⟨.bank2, ⟨0, 0, 0⟩, 0, 0⟩)
    ⟨.high, blank.setReg (ECON1.cell 0) 0x02⟩ ((), d') s' ∧
    Wrote [(⟨PHLCON, by decide⟩, 0x3883)] (blank.setReg (ECON1.cell 0) 0x02) s'.chip := by
  have h : Coherent (chip specimen) ⟨.bank2, ⟨0, 0, 0⟩, 0, 0⟩ (blank.setReg (ECON1.cell 0) 0x02) :=
    .inr rfl
  exact ((phyWrite_reaches_iff h fun _ ↦ []).1 ⟨PHLCON, by decide⟩ 0x3883).mpr rfl

/-- After a reset bank 0 is selected, and the write of `PHLCON` never starts. -/
theorem phyWrite_misses_reset : ¬∃ d' s', (Port.machine (chip specimen) still).Returns (fun _ ↦ [])
    ((enc28j60WriteReg PHLCON 0x3883).run ⟨.common, ⟨0, 0, 0⟩, 0, 0⟩) ⟨.high, blank⟩ ((), d') s' ∧
    Wrote [(⟨PHLCON, by decide⟩, 0x3883)] blank s'.chip := by
  rintro ⟨d', s', hr, hw⟩
  have hd : Coherent (chip specimen) ⟨.common, ⟨0, 0, 0⟩, 0, 0⟩ blank := .inl rfl
  exact absurd (written_bsel (r := ⟨PHLCON, by decide⟩) hd hr hw) (by decide)

end Runs

end Enc28j60.PhyWrites
