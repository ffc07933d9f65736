import Enc28j60.PhyWrites

namespace Enc28j60.PhyReads

open Interaction RegisterMap SpiSlave Port LowLayer Access Banking DataSheet Miim Quiet PhyWrites

/-- The data registers are sampled only once the chip is done with the transaction. -/
def sampling : Guard Chip where
  read cmd c := cmd.reg = MIRDL → c.mii = none
  write _ _ _ := True
  short _ _ _ := True

def watched (tot : Prop) (si : Silicon) : Setting Chip Empty := ⟨chip si, still, sampling, tot⟩

/-- One MIIM read has been made and nothing else has changed, apart from `BSEL`, the MII
registers that a read uses and `TXRTS`, which the chip may have cleared. -/
structure Read (r : PhyReg) (c c' : Chip) : Prop where
  miim : c'.miim = c.miim ++ [.read r.addr]
  phy : c'.phy = c.phy
  micmd : c'.peek (MICMD.cell 0) = MicmdReg8.miird.set 0 (c.peek (MICMD.cell 0))
  peek : ∀ x, x ∉ [ECON1.cell 0, MIREGADR.cell 0, MICMD.cell 0, MIRDL.cell 0, MIRDL.cell 1,
    MISTAT.cell 0] → c'.peek x = c.peek x
  erxrdpt : c'.erxrdpt = c.erxrdpt
  econ1 : ∀ i, 2 ≤ i → i ≠ 3 → c'.econ1.getLsbD i = c.econ1.getLsbD i
  txrts : c'.txrts = true → c.txrts = true

variable {tot : Prop} {si : Silicon} {c c₀ : Chip} {d : Enc28j60T}

theorem watched_lawful : Lawful (watched tot si) := lawful nofun

theorem watched_stable (P : Chip → Prop) : (watched tot si).Stable P := nofun

theorem bankable_watched : Bankable (watched tot si) (Kept c₀) := by
  refine bankable_kept_of ?_ fun _ _ _ ↦ trivial
  intro o c h
  exact absurd h (show ECON1 ≠ MIRDL by decide)

section Stages

variable (a : Byte)

/-- The read is under way. -/
def asked (a : Byte) (c : Chip) : Chip :=
  ((c.setReg (MIREGADR.cell 0) a).setReg (MICMD.cell 0)
    (MicmdReg8.miird.set 1 (c.peek (MICMD.cell 0))))

/-- The data registers hold the answer. -/
def answered (si : Silicon) (a : Byte) (c : Chip) : Chip :=
  ((asked a c).startMiim si (.read (a.setWidth 5))).finishMiim (.read (a.setWidth 5))

theorem phyRead_eq : phyRead si a c = (answered si a c).setReg (MICMD.cell 0)
    (MicmdReg8.miird.set 0 ((answered si a c).peek (MICMD.cell 0))) := by
  have hask : (c.writeCell si (MIREGADR.cell 0) a).writeCell si (MICMD.cell 0)
      (MicmdReg8.miird.set 1 (c.peek (MICMD.cell 0))) =
      (asked a c).startMiim si (.read (a.setWidth 5)) := by
    rw [writeCell_micmd (miird_set _).1, writeCell_plain (x := MIREGADR.cell 0) (by decide),
      regs_setReg, if_pos rfl]
    rfl
  have hclear (c : Chip) (v : Byte) (hv : v.getLsbD 0 = false) :
      c.writeCell si (MICMD.cell 0) v = c.setReg (MICMD.cell 0) v := by
    simp only [Chip.writeCell, hv, Bool.false_eq_true, and_false, if_false]
    rfl
  rw [phyRead, hask]
  exact hclear _ _ (miird_set _).2

theorem kept_finishRead (h : Kept c₀ c) (x : BitVec 5) :
    Kept (c₀.finishMiim (.read x)) (c.finishMiim (.read x)) := by
  have hphy : c.phy x = c₀.phy x := congrFun (congrArg Prod.fst h.rest) x
  have hset := (h.setReg (x := MIRDL.cell 0) (by decide) ((c.phy x).setWidth 8)).setReg
    (x := MIRDL.cell 1) (by decide) ((c.phy x >>> 8).setWidth 8)
  have hrest := hset.rest
  simp only [remainder, Prod.mk.injEq] at hrest
  obtain ⟨h₁, h₂, h₃, h₄, -, h₆, h₇⟩ := hrest
  simp only [Chip.finishMiim]
  rw [← hphy]
  refine ⟨hset.regs, hset.econ1, hset.txrts, ?_⟩
  simp only [remainder, Prod.mk.injEq]
  exact ⟨h₁, h₂, h₃, h₄, trivial, h₆, h₇⟩

theorem answer_read (x : BitVec 5) (n : ℕ) (h : Kept { c₀ with mii := some (.read x, n) } c) :
    Answer (watched tot si) (fun n ↦ Kept { c₀ with mii := some (.read x, n) })
      (Kept (c₀.finishMiim (.read x))) n (c.readCell si (MISTAT.cell 0)).1
      (c.readCell si (MISTAT.cell 0)).2 := by
  have hr : c.readCell si (MISTAT.cell 0) = c.readMistat := rfl
  have hmii : c.mii = some (.read x, n) := congrArg (·.2.2.2.2.1) h.rest
  have hbits := bit0_clear (c.regs (MISTAT.cell 0))
  rw [hr, Chip.readMistat, hmii]
  cases n with
  | zero =>
    refine ⟨fun hv ↦ Bool.noConfusion (hv.symm.trans hbits.1), fun _ ↦ ?_⟩
    exact kept_finishRead h x
  | succ n =>
    refine ⟨fun _ ↦ ⟨n, fun _ ↦ Nat.lt_succ_self n, h.regs, h.econ1, h.txrts, ?_⟩,
      fun hv ↦ absurd hbits.2 hv⟩
    have hrest := h.rest
    simp only [remainder, Prod.mk.injEq] at hrest ⊢
    obtain ⟨h₁, h₂, h₃, h₄, -, h₆, h₇⟩ := hrest
    exact ⟨h₁, h₂, h₃, h₄, trivial, h₆, h₇⟩

end Stages

section Specs

variable {r : PhyReg}

/-- In bank 2 a read command reaches a register that only reports what it holds. -/
theorem kept_read (h : Kept c₀ c) {x : Cell}
    (hx : x ∉ [ECON1.cell 0, ESTAT.cell 0, MISTAT.cell 0, EPKTCNT.cell 0]) :
    (c.readCell si x).1 = c₀.peek x ∧ Kept c₀ (c.readCell si x).2 := by
  have hne : x ≠ ECON1.cell 0 := fun he ↦ hx (by rw [he]; exact List.mem_cons_self)
  rw [readCell_plain hx, h.peek hne]
  exact ⟨rfl, h⟩

theorem kept_ask {b : Byte} (h : Kept c₀ c) (hb : b.getLsbD 0 = true) :
    Kept ((c₀.setReg (MICMD.cell 0) b).startMiim si (.read ((c₀.regs (MIREGADR.cell 0)).setWidth 5)))
      (c.writeCell si (MICMD.cell 0) b) := by
  rw [writeCell_micmd hb, h.regs _ (by decide)]
  exact (h.setReg (by decide) b).startMiim _

theorem kept_unask {b : Byte} (h : Kept c₀ c) (hb : b.getLsbD 0 = false) :
    Kept (c₀.setReg (MICMD.cell 0) b) (c.writeCell si (MICMD.cell 0) b) := by
  have hw : c.writeCell si (MICMD.cell 0) b = c.setReg (MICMD.cell 0) b := by
    simp only [Chip.writeCell, hb, Bool.false_eq_true, and_false, if_false]
    rfl
  rw [hw]
  exact h.setReg (by decide) b

theorem mii_phyRead (a : Byte) : (phyRead si a c).mii = none := by
  rw [phyRead_eq]
  rfl

theorem spec_read : (watched tot si).Spec (At (watched tot si) d (Kept c₀)) (enc28j60ReadReg r.1)
    fun v ↦ At (watched tot si) { d with bank := .bank2 } fun c ↦
      v = c₀.phy r.addr ∧ Kept (phyRead si r.1.regAddr c₀) c := by
  let a := r.1.regAddr
  let b := c₀.peek (MICMD.cell 0)
  let c₁ := c₀.setReg (MIREGADR.cell 0) a
  let c₂ := (asked a c₀).startMiim si (.read r.addr)
  let c₃ := answered si a c₀
  have hfetch : fetch MIRDL (phyRead si a c₀) = c₀.phy r.addr := fetch_phyRead a
  have hl : MIRDL.length = 2 := rfl
  rw [fetch, if_pos hl] at hfetch
  refine spec_readPhy watched_lawful r.2.1 r.2.2 (F := fun w c ↦ w = b ∧ Kept c₀ c)
    (G := fun w c ↦ w = b ∧ Kept c₁ c) (W := fun n ↦ Kept { c₂ with mii := some (.read r.addr, n) })
    (V := Kept c₃) (Y := fun w c ↦ w = c₃.peek (MICMD.cell 0) ∧ Kept c₃ c)
    (T := Kept (phyRead si a c₀))
    (U := fun w c ↦ w = (phyRead si a c₀).peek (MIRDL.cell 0) ∧ Kept (phyRead si a c₀) c)
    bankable_watched (fun _ ↦ watched_stable _) (fun _ ↦ watched_stable _)
    (fun _ ↦ bankable_watched) bankable_watched (fun _ ↦ watched_stable _) (watched_stable _)
    (fun _ ↦ watched_stable _) (fun _ ↦ watched_stable _) ?_ ?_ ?_ ?_ ?_ ?_ ?_ ?_
  · intro c _ hc
    exact ⟨fun h ↦ absurd h (show MICMD ≠ MIRDL by decide), kept_read hc (by decide)⟩
  · intro w c _ h
    have hw : c.writeCell si (MIREGADR.cell 0) a = c.setReg (MIREGADR.cell 0) a :=
      writeCell_plain (by decide) a
    refine ⟨trivial, h.1, ?_⟩
    change Kept c₁ (c.writeCell si (MIREGADR.cell 0) a)
    rw [hw]
    exact h.2.setReg (by decide) a
  · intro w c _ h
    obtain ⟨rfl, hc⟩ := h
    have hmii : c₂.mii = some (.read r.addr, si.delay c₀.draws) := rfl
    have hreg : c₁.regs (MIREGADR.cell 0) = a := by rw [regs_setReg, if_pos rfl]
    have hask : Kept _ (c.writeCell si (MICMD.cell 0) (MicmdReg8.miird.set 1 b)) :=
      kept_ask hc (miird_set b).1
    rw [hreg] at hask
    refine ⟨trivial, si.delay c₀.draws, ?_⟩
    rw [← hmii]
    exact hask
  · intro n c _ hc
    exact ⟨fun h ↦ absurd h (show MISTAT ≠ MIRDL by decide), answer_read r.addr n hc⟩
  · intro c _ hc
    exact ⟨fun h ↦ absurd h (show MICMD ≠ MIRDL by decide), kept_read hc (by decide)⟩
  · intro w c _ h
    obtain ⟨rfl, hc⟩ := h
    refine ⟨trivial, ?_⟩
    change Kept (phyRead si a c₀) (c.writeCell si (MICMD.cell 0) (MicmdReg8.miird.set 0 _))
    rw [phyRead_eq]
    exact kept_unask hc (miird_set _).2
  · intro c _ hc
    have hmii : c.mii = none := (congrArg (·.2.2.2.2.1) hc.rest).trans (mii_phyRead a)
    exact ⟨fun _ ↦ hmii, kept_read hc (by decide)⟩
  · intro low c _ h
    obtain ⟨rfl, hc⟩ := h
    have hmii : c.mii = none := (congrArg (·.2.2.2.2.1) hc.rest).trans (mii_phyRead a)
    have hread : (c.readCell si (MIRDL.cell 1)).1 = (phyRead si a c₀).peek (MIRDL.cell 1) ∧
        Kept (phyRead si a c₀) (c.readCell si (MIRDL.cell 1)).2 := kept_read hc (by decide)
    refine ⟨fun _ ↦ hmii, ?_, hread.2⟩
    rw [← hfetch]
    exact congrArg (word · _) hread.1

theorem miird_set_set : ∀ v : Byte,
    MicmdReg8.miird.set 0 (MicmdReg8.miird.set 1 v) = MicmdReg8.miird.set 0 v := by decide

theorem peek_micmd (a : Byte) :
    (phyRead si a c).peek (MICMD.cell 0) = MicmdReg8.miird.set 0 (c.peek (MICMD.cell 0)) := by
  have hpeek (c : Chip) : c.peek (MICMD.cell 0) = c.regs (MICMD.cell 0) := rfl
  have hans : (answered si a c).regs (MICMD.cell 0) = MicmdReg8.miird.set 1 (c.peek (MICMD.cell 0)) := by
    rw [answered, regs_finishRead, if_neg (by decide), if_neg (by decide)]
    change (asked a c).regs (MICMD.cell 0) = _
    rw [asked, regs_setReg, if_pos rfl]
  rw [phyRead_eq, hpeek, regs_setReg, if_pos rfl, hpeek, hans, miird_set_set]

theorem read_of_kept (h : Kept (phyRead si r.1.regAddr c₀) c) : Read r c₀ c := by
  have hrest := h.rest
  simp only [remainder, Prod.mk.injEq, phyRead_eq] at hrest
  obtain ⟨hphy, hpkt, hwrpt, hrdpt, -, hmiim, -⟩ := hrest
  have hecon1 : (phyRead si r.1.regAddr c₀).econ1 = c₀.econ1 := regs_phyRead _ (by decide)
  refine ⟨hmiim, hphy, ?_, fun x hx ↦ ?_, hrdpt, fun i hi hn ↦ ?_, fun ht ↦ ?_⟩
  · rw [h.peek (by decide), peek_micmd]
  · simp only [List.mem_cons, List.not_mem_nil, or_false, not_or] at hx
    obtain ⟨h₁, h₂, h₃, h₄, h₅, -⟩ := hx
    have hregs : c.regs x = c₀.regs x := by
      rw [h.regs x h₁, regs_phyRead]
      simp only [List.mem_cons, List.not_mem_nil, or_false, not_or]
      exact ⟨h₂, h₃, h₄, h₅⟩
    unfold Chip.peek
    rw [hregs, hpkt, hwrpt]
    rfl
  · rw [← hecon1]
    exact h.econ1 i hi hn
  · rw [Chip.txrts, ← hecon1]
    exact h.txrts ht

/-- A PHY register is read in full from every coherent state, with one MIIM read, and bank 2 is
selected afterwards. -/
theorem phyRead_correct (r : PhyReg) (hd : Coherent (chip si) d c) (σ : ℕ → List Empty) :
    ∃ d' s', (Port.machine (chip si) still).Returns σ ((enc28j60ReadReg r.1).run d) ⟨.high, c⟩
        (c.phy r.addr, d') s' ∧
      Read r c s'.chip ∧ d' = { d with bank := .bank2 } ∧ (chip si).bsel s'.chip = d'.bank.bits ∧
      s'.window = .high ∧
      ∀ n op s'', (Port.machine (chip si) still).Performs σ ((enc28j60ReadReg r.1).run d) ⟨.high, c⟩
        n op s'' → sampling.allows op s'' := by
  have hspec : (watched True si).Does (enc28j60ReadReg r.1) _ d ⟨.high, c⟩ :=
    spec_read d ⟨.high, c⟩ (.inl rfl) ⟨rfl, hd, .refl c⟩
  obtain ⟨v, d', s', hr, hw, rfl, hcoh, rfl, hk⟩ := Machine.dwp_total hspec σ
  exact ⟨_, s', hr, read_of_kept hk, rfl, hcoh.resolve_left nofun, hw,
    fun n op s'' hp ↦ Machine.wp_performs hspec hp⟩

theorem phyRead_correct_bank0 : ∃ d' s', (Port.machine (chip specimen) still).Returns (fun _ ↦ [])
      ((enc28j60ReadReg PHCON1).run ⟨.bank0, ⟨0, 0, 0⟩, 0, 0⟩) ⟨.high, blank⟩ (0, d') s' ∧
    Read ⟨PHCON1, by decide⟩ blank s'.chip ∧ d' = ⟨.bank2, ⟨0, 0, 0⟩, 0, 0⟩ ∧
    (chip specimen).bsel s'.chip = d'.bank.bits ∧ s'.window = .high ∧
    ∀ n op s'', (Port.machine (chip specimen) still).Performs (fun _ ↦ [])
      ((enc28j60ReadReg PHCON1).run ⟨.bank0, ⟨0, 0, 0⟩, 0, 0⟩) ⟨.high, blank⟩ n op s'' →
      sampling.allows op s'' := by
  have h : Coherent (chip specimen) ⟨.bank0, ⟨0, 0, 0⟩, 0, 0⟩ blank := .inr rfl
  exact phyRead_correct ⟨PHCON1, by decide⟩ h fun _ ↦ []

end Specs

end Enc28j60.PhyReads
