import Mathlib

namespace Enc28j60.Interaction

variable {K A B : Type} (own : K → Bool) (f : A → K → A) (g : B → K → B)

/-- Every call belongs to one of two parties and changes the state of that party alone. -/
def both (x : A × B) (k : K) : A × B := if own k then (f x.1 k, x.2) else (x.1, g x.2 k)

variable {own f g} {x : A × B} {l l' : List K}

theorem both_own {k : K} (h : own k = true) : both own f g x k = (f x.1 k, x.2) := if_pos h

theorem both_other {k : K} (h : own k = false) : both own f g x k = (x.1, g x.2 k) := by
  unfold both
  rw [h]
  rfl

/-- Each party gets as far as its own calls take it. -/
theorem foldl_both : l.foldl (both own f g) x =
    ((l.filter own).foldl f x.1, (l.filter fun k ↦ !own k).foldl g x.2) := by
  induction l generalizing x with
  | nil => rfl
  | cons k l ih =>
    rw [List.foldl_cons, ih]
    cases hk : own k with
    | true =>
      rw [both_own hk, List.filter_cons_of_pos hk, List.filter_cons_of_neg (by simp [hk])]
      rfl
    | false =>
      rw [both_other hk, List.filter_cons_of_neg (by simp [hk]), List.filter_cons_of_pos (by simp [hk])]
      rfl

/-- Two interleavings of the same calls of the two parties come to the same. -/
theorem foldl_both_congr (h : l.filter own = l'.filter own)
    (h' : (l.filter fun k ↦ !own k) = l'.filter fun k ↦ !own k) :
    l.foldl (both own f g) x = l'.foldl (both own f g) x := by
  rw [foldl_both, foldl_both, h, h']

end Enc28j60.Interaction
