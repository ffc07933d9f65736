import Enc28j60.Configuration

namespace Enc28j60.Duplex

open Interaction RegisterMap SpiSlave Port LowLayer Interface Access Banking DataSheet Quiet Boot
open SelfTest Enc28j60.Configuration

variable {si : Silicon} {c : Chip} {mac : MacAddrT}

/-- Where `PHCON1` is among the PHY registers. -/
def phcon1 : BitVec 5 := PHCON1.regAddr.setWidth 5

/-- MAC and PHY are in full duplex mode, and the rest of `PHCON1` is as it was before: bit 8 is
`PDPXMD` of the data sheet, bit 0 of `MACON3` is `FULLDPX`. -/
structure FullDuplex (before : Word) (c : Chip) : Prop where
  phy : (c.phy phcon1).getLsbD 8 = true
  mac : (c.regs (MACON3.cell 0)).getLsbD 0 = true
  rest : ∀ i < 16, i ≠ 8 → (c.phy phcon1).getLsbD i = before.getLsbD i

theorem fullDuplex_iff_of_phcon1 {before : Word}
    (hphy : c.phy phcon1 = Phcon1Reg16.pdpxmd.set 1 before)
    (hmac : (c.regs (MACON3.cell 0)).getLsbD 0 = true) :
    FullDuplex before c ↔ before.getLsbD 7 = true ∧ before.getLsbD 8 = true := by
  have hbit (i : ℕ) (hi : i < 16) :
      (c.phy phcon1).getLsbD i = (decide (i = 7) || before.getLsbD i) := by
    rw [hphy]
    exact Field.getLsbD_set_one hi before
  constructor
  · rintro ⟨h₈, -, hrest⟩
    refine ⟨?_, ?_⟩
    · rw [← hrest 7 (by decide) (by decide), hbit 7 (by decide)]
      rfl
    · rw [← h₈, hbit 8 (by decide)]
      rfl
  · rintro ⟨h₇, h₈⟩
    refine ⟨by rw [hbit 8 (by decide), h₈]; rfl, hmac, fun i hi _ ↦ ?_⟩
    rw [hbit i hi]
    by_cases h : i = 7
    · rw [h, h₇]
      rfl
    · rw [decide_eq_false h, Bool.false_or]

theorem macon3_boot (y : Chip) :
    ((boot si mac (y.reset si)).regs (MACON3.cell 0)).getLsbD 0 = true := by
  obtain ⟨v, hv⟩ : ∃ v : Word, (MACON3, ((Macon3Reg.fulldpx.set 1 v).setWidth 8 : Byte).setWidth 16) ∈
      programmed si mac :=
    ⟨_, .tail _ (.tail _ (.tail _ (.tail _ (.head _))))⟩
  have hfetch : fetch MACON3 (boot si mac (y.reset si)) = _ := fetch_boot y _ hv
  rw [fetch, if_neg (by decide), peek_plain (by decide)] at hfetch
  have hbit := congrArg (BitVec.getLsbD · 0) hfetch
  simp only [BitVec.getLsbD_setWidth] at hbit
  exact hbit.trans (Field.getLsbD_set_one (by decide) v)

/-- Initialisation comes to an end with `PHCON1` and `MACON3` as the code sets them. -/
theorem returns_phcon1 (LL_TEST : Bool) (mac : MacAddrT) (d : Enc28j60T) (s : Bus Chip)
    (σ : ℕ → List Event) :
    ∃ d' s', (live si).Returns σ ((enc28j60Init LL_TEST mac).run d) s ((), d') s' ∧
      s'.chip.phy phcon1 = Phcon1Reg16.pdpxmd.set 1 (si.resetPhy phcon1) ∧
      (s'.chip.regs (MACON3.cell 0)).getLsbD 0 = true := by
  have hinit : (bench True si).Does (enc28j60Init LL_TEST mac) _ d s :=
    does_init LL_TEST mac (P := fun _ ↦ True) (fun _ _ _ ↦ trivial) trivial
  obtain ⟨⟨⟩, d', s', hr, -, -, -, x, y, -, -, hev⟩ := Machine.dwp_total hinit σ
  have hstable (e : Event) (c : Chip) (h : c.phy phcon1 = Phcon1Reg16.pdpxmd.set 1 (si.resetPhy phcon1) ∧
      (c.regs (MACON3.cell 0)).getLsbD 0 = true) :
      (e.act si c).phy phcon1 = Phcon1Reg16.pdpxmd.set 1 (si.resetPhy phcon1) ∧
        ((e.act si c).regs (MACON3.cell 0)).getLsbD 0 = true := by
    rw [e.phy, e.regs (by decide)]
    exact h
  refine ⟨d', s', hr, hev.of_stable hstable ?_⟩
  rw [phy_awake, regs_awake (by decide), phy_boot]
  exact ⟨Function.update_self .., macon3_boot y⟩

/-- The code sets bit 7 of `PHCON1`, which is not the duplex mode. So the modes agree, and the
rest is kept, exactly when both bits were set already by the reset. -/
theorem fullDuplex_iff (LL_TEST : Bool) (mac : MacAddrT) (d : Enc28j60T) (s : Bus Chip)
    (σ : ℕ → List Event) :
    ∃ d' s', (live si).Returns σ ((enc28j60Init LL_TEST mac).run d) s ((), d') s' ∧
      (FullDuplex (si.resetPhy phcon1) s'.chip ↔
        (si.resetPhy phcon1).getLsbD 7 = true ∧ (si.resetPhy phcon1).getLsbD 8 = true) := by
  obtain ⟨d', s', hr, hphy, hmac⟩ := returns_phcon1 LL_TEST mac d s σ
  exact ⟨d', s', hr, fullDuplex_iff_of_phcon1 hphy hmac⟩

theorem not_fullDuplex_specimen : ∃ d' s', (live specimen).Returns (fun _ ↦ [])
      ((enc28j60Init false ⟨2, 0, 0, 0, 0, 1⟩).run ⟨.common, ⟨0, 0, 0⟩, 0, 0⟩) ⟨.high, blank⟩
      ((), d') s' ∧ ¬FullDuplex (specimen.resetPhy phcon1) s'.chip := by
  obtain ⟨d', s', hr, hphy, hmac⟩ := returns_phcon1 false ⟨2, 0, 0, 0, 0, 1⟩
    ⟨.common, ⟨0, 0, 0⟩, 0, 0⟩ ⟨.high, blank⟩ fun _ ↦ []
  refine ⟨d', s', hr, fun h ↦ ?_⟩
  exact absurd ((fullDuplex_iff_of_phcon1 hphy hmac).mp h).1 (by decide)

end Enc28j60.Duplex
