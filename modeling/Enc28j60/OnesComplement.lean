import Mathlib

namespace Enc28j60.OnesComplement

variable {w a b c d k n : ℕ}

/-- The two are the same sum of `w` bits with the carry added in at the other end. Such a sum is zero
only for nothing but zeros. -/
def Same (w a b : ℕ) : Prop := a ≡ b [MOD 2 ^ w - 1] ∧ (a = 0 ↔ b = 0)

theorem Same.refl (w a : ℕ) : Same w a a := ⟨rfl, Iff.rfl⟩

theorem Same.symm (h : Same w a b) : Same w b a := ⟨h.1.symm, h.2.symm⟩

theorem Same.trans (h : Same w a b) (h' : Same w b c) : Same w a c := ⟨h.1.trans h'.1, h.2.trans h'.2⟩

theorem Same.add (h : Same w a b) (h' : Same w c d) : Same w (a + c) (b + d) := by
  refine ⟨h.1.add h'.1, ?_⟩
  rw [Nat.add_eq_zero_iff, Nat.add_eq_zero_iff, h.2, h'.2]

theorem Same.mul_left (h : Same w a b) (k : ℕ) : Same w (k * a) (k * b) := by
  refine ⟨h.1.mul_left k, ?_⟩
  rw [Nat.mul_eq_zero, Nat.mul_eq_zero, h.2]

/-- Nothing is lost when the upper half is added to the lower one. -/
theorem same_shift (w a : ℕ) : Same w (2 ^ w * a) a := by
  have hpos : 0 < 2 ^ w := Nat.two_pow_pos w
  refine ⟨?_, by rw [Nat.mul_eq_zero]; omega⟩
  have h : 2 ^ w * a = (2 ^ w - 1) * a + a := by
    rw [Nat.sub_mul, Nat.one_mul, Nat.sub_add_cancel (Nat.le_mul_of_pos_left a hpos)]
  rw [h]
  exact Nat.modEq_iff_dvd.mpr ⟨-a, by push_cast; ring⟩

theorem same_fold (w n : ℕ) : Same w (n / 2 ^ w + n % 2 ^ w) n := by
  have h := (same_shift w (n / 2 ^ w)).symm.add (Same.refl w (n % 2 ^ w))
  rwa [Nat.div_add_mod] at h

/-- Of the sums that are the same only one has `w` bits. -/
theorem Same.eq (h : Same w a b) (ha : a < 2 ^ w) (hb : b < 2 ^ w) : a = b := by
  obtain ⟨hmod, hzero⟩ := h
  by_cases hb0 : b = 0
  · rw [hb0, hzero.mpr hb0]
  · have ha0 : a ≠ 0 := fun ha0 ↦ hb0 (hzero.mp ha0)
    -- one less, both are residues
    have hone : a - 1 ≡ b - 1 [MOD 2 ^ w - 1] := by
      refine Nat.ModEq.add_right_cancel' 1 ?_
      rwa [Nat.sub_add_cancel (Nat.pos_of_ne_zero ha0), Nat.sub_add_cancel (Nat.pos_of_ne_zero hb0)]
    have heq := hone.eq_of_lt_of_lt (by omega) (by omega)
    omega

end Enc28j60.OnesComplement
