import Mathlib

namespace Enc28j60.Segments

/-- A segment of a range: its length, and whether it is taken. -/
abbrev Segment := ℕ × Bool

variable {a n k x : ℕ} {r l t : List Segment} {s : Segment}

def extent (r : List Segment) : ℕ := (r.map Prod.fst).sum

@[simp] theorem extent_nil : extent [] = 0 := rfl

@[simp] theorem extent_cons : extent (s :: r) = s.1 + extent r := List.sum_cons

@[simp] theorem extent_append : extent (l ++ r) = extent l + extent r := by
  simp [extent]

/-- The places where the segments of a row begin that itself begins at `a`. -/
def starts : ℕ → List Segment → List ℕ
  | _, [] => []
  | a, s :: r => a :: starts (a + s.1) r

theorem starts_append : starts a (l ++ r) = starts a l ++ starts (a + extent l) r := by
  induction l generalizing a with
  | nil => rfl
  | cons s l ih => simp [starts, ih, Nat.add_assoc]

theorem le_of_mem_starts (h : x ∈ starts a r) : a ≤ x := by
  induction r generalizing a with
  | nil => cases h
  | cons s r ih =>
    cases h with
    | head => exact Nat.le_refl _
    | tail _ h => exact (Nat.le_add_right _ _).trans (ih h)

theorem lt_of_mem_starts (hpos : ∀ s ∈ r, 0 < s.1) (h : x ∈ starts a r) : x < a + extent r := by
  induction r generalizing a with
  | nil => cases h
  | cons s r ih =>
    simp only [List.forall_mem_cons] at hpos
    rw [extent_cons]
    cases h with
    | head => omega
    | tail _ h =>
      have hlt := ih hpos.2 h
      omega

/-- The taken segments, each with its place and its length. -/
def taken : ℕ → List Segment → List (ℕ × ℕ)
  | _, [] => []
  | a, s :: r => if s.2 then (a, s.1) :: taken (a + s.1) r else taken (a + s.1) r

theorem taken_append : taken a (l ++ r) = taken a l ++ taken (a + extent l) r := by
  induction l generalizing a with
  | nil => rfl
  | cons s l ih =>
    simp only [List.cons_append, taken, ih, extent_cons, Nat.add_assoc]
    split <;> rfl

theorem taken_within {q : ℕ × ℕ} (h : q ∈ taken a r) : a ≤ q.1 ∧ q.1 + q.2 ≤ a + extent r := by
  induction r generalizing a with
  | nil => cases h
  | cons s r ih =>
    rw [extent_cons]
    unfold taken at h
    split at h
    · cases h with
      | head => exact ⟨Nat.le_refl _, by omega⟩
      | tail _ h =>
        have hq := ih h
        omega
    · have hq := ih h
      omega

/-- The taken segments are in order and do not overlap. -/
theorem taken_pairwise : (taken a r).Pairwise fun p q ↦ p.1 + p.2 ≤ q.1 := by
  induction r generalizing a with
  | nil => exact List.Pairwise.nil
  | cons s r ih =>
    unfold taken
    split
    · refine List.pairwise_cons.mpr ⟨fun q hq ↦ ?_, ih⟩
      exact (taken_within hq).1
    · exact ih

/-- A taken segment cuts the row in two. -/
theorem mem_taken : (x, n) ∈ taken a r ↔ ∃ l t, r = l ++ (n, true) :: t ∧ x = a + extent l := by
  induction r generalizing a with
  | nil => simp [taken]
  | cons s r ih =>
    constructor
    · intro h
      have hrest (h : (x, n) ∈ taken (a + s.1) r) : ∃ l t, s :: r = l ++ (n, true) :: t ∧ x = a + extent l := by
        obtain ⟨l, t, rfl, rfl⟩ := ih.mp h
        exact ⟨s :: l, t, rfl, by rw [extent_cons]; omega⟩
      unfold taken at h
      split at h
      · cases h with
        | head =>
          rename_i hs
          exact ⟨[], r, by rw [← hs]; rfl, rfl⟩
        | tail _ h => exact hrest h
      · exact hrest h
    · rintro ⟨l, t, h, rfl⟩
      cases l with
      | nil =>
        cases h
        simp [taken]
      | cons s' l =>
        cases h
        have hmem : (a + extent (s :: l), n) ∈ taken (a + s.1) (l ++ (n, true) :: t) :=
          ih.mpr ⟨l, t, rfl, by rw [extent_cons]; omega⟩
        unfold taken
        split
        · exact List.mem_cons_of_mem _ hmem
        · exact hmem

theorem taken_eq_nil : taken a r = [] ↔ ∀ s ∈ r, s.2 = false := by
  induction r generalizing a with
  | nil => simp [taken]
  | cons s r ih =>
    unfold taken
    cases hs : s.2 <;> simp [hs, ih]

/-- No two neighbours are both free. -/
def Merged (r : List Segment) : Prop := r.IsChain fun s t ↦ s.2 = true ∨ t.2 = true

/-- A merged row with nothing taken is one free segment at most. -/
theorem Merged.of_taken_nil (h : Merged r) (ht : taken a r = []) : r = [] ∨ r = [(extent r, false)] := by
  have hfree := taken_eq_nil.mp ht
  match r, h with
  | [], _ => exact .inl rfl
  | [s], _ =>
    right
    have hs : s.2 = false := hfree s List.mem_cons_self
    simp [extent, ← hs]
  | s :: t :: r, h =>
    have hst := (List.isChain_cons_cons.mp h).1
    rw [hfree s (by simp), hfree t (by simp)] at hst
    simp at hst

/-- The place of the first free segment, or the end of the row. -/
def firstFree : ℕ → List Segment → ℕ
  | a, [] => a
  | a, s :: r => if s.2 then firstFree (a + s.1) r else a

theorem le_firstFree : a ≤ firstFree a r := by
  induction r generalizing a with
  | nil => exact Nat.le_refl _
  | cons s r ih =>
    unfold firstFree
    split
    · exact (Nat.le_add_right _ _).trans ih
    · exact Nat.le_refl _

theorem firstFree_le : firstFree a r ≤ a + extent r := by
  induction r generalizing a with
  | nil => exact Nat.le_refl _
  | cons s r ih =>
    rw [extent_cons]
    unfold firstFree
    split
    · have h := ih (a := a + s.1)
      omega
    · omega

/-- Up to the first free segment all are taken. -/
theorem firstFree_append (h : ∀ s ∈ l, s.2 = true) : firstFree a (l ++ r) = firstFree (a + extent l) r := by
  induction l generalizing a with
  | nil => rfl
  | cons s l ih =>
    simp only [List.forall_mem_cons] at h
    simp only [List.cons_append, firstFree, h.1, if_true, extent_cons, ih h.2, Nat.add_assoc]

theorem firstFree_append_left (h : ¬∀ s ∈ l, s.2 = true) : firstFree a (l ++ r) = firstFree a l := by
  induction l generalizing a with
  | nil => simp at h
  | cons s l ih =>
    simp only [List.forall_mem_cons, not_and] at h
    simp only [List.cons_append, firstFree]
    split
    · rename_i hs
      exact ih (h hs)
    · rfl

/-- All is taken before the first free segment. -/
theorem exists_firstFree (r : List Segment) :
    ∃ l t, r = l ++ t ∧ (∀ s ∈ l, s.2 = true) ∧ firstFree a r = a + extent l := by
  induction r generalizing a with
  | nil => exact ⟨[], [], rfl, nofun, rfl⟩
  | cons s r ih =>
    obtain ⟨n, u⟩ := s
    cases u with
    | false => exact ⟨[], _, rfl, nofun, rfl⟩
    | true =>
      obtain ⟨l, t, rfl, hl, heq⟩ := ih (a := a + n)
      refine ⟨(n, true) :: l, t, rfl, ?_, ?_⟩
      · simpa using hl
      · rw [extent_cons, ← Nat.add_assoc]
        exact heq

theorem firstFree_lt (hpos : ∀ s ∈ l, 0 < s.1) (h : ¬∀ s ∈ l, s.2 = true) : firstFree a l < a + extent l := by
  induction l generalizing a with
  | nil => simp at h
  | cons s l ih =>
    simp only [List.forall_mem_cons] at hpos h
    rw [extent_cons]
    unfold firstFree
    split
    · rename_i hs
      have hlt := ih hpos.2 (a := a + s.1) fun hl ↦ h ⟨hs, hl⟩
      omega
    · omega

/-- To free a segment moves the first free place there, unless there is one before. -/
theorem firstFree_release (hpos : ∀ s ∈ l, 0 < s.1) : firstFree a (l ++ (n, false) :: t) =
    min (firstFree a (l ++ (n, true) :: t)) (a + extent l) := by
  by_cases h : ∀ s ∈ l, s.2 = true
  · have hle := le_firstFree (a := a + extent l + n) (r := t)
    simp only [firstFree_append h, firstFree, Bool.false_eq_true, if_false, if_true]
    omega
  · have hlt := firstFree_lt (a := a) hpos h
    simp only [firstFree_append_left h]
    omega

theorem firstFree_le_free : firstFree a (l ++ (n, false) :: t) ≤ a + extent l := by
  by_cases h : ∀ s ∈ l, s.2 = true
  · simp [firstFree_append h, firstFree]
  · rw [firstFree_append_left h]
    exact firstFree_le

/-- Two free neighbours become one. -/
theorem firstFree_merge : firstFree a (l ++ (n + k, false) :: t) = firstFree a (l ++ (n, false) :: (k, false) :: t) := by
  by_cases h : ∀ s ∈ l, s.2 = true
  · simp [firstFree_append h, firstFree]
  · simp only [firstFree_append_left h]

theorem taken_merge : taken a (l ++ (n + k, false) :: t) = taken a (l ++ (n, false) :: (k, false) :: t) := by
  simp [taken_append, taken, Nat.add_assoc]

end Enc28j60.Segments
