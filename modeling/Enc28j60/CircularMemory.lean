import Mathlib

namespace Enc28j60.CircularMemory

variable {β ρ : Type} (addr : ℕ → ℕ)

/-- Store a list from position `p` on. Positions only ever grow; `addr` says where in the
memory a position is. -/
def store (m : ℕ → β) (p : ℕ) : List β → ℕ → β
  | [] => m
  | b :: bs => store (Function.update m (addr p) b) (p + 1) bs

def load (m : ℕ → β) (p : ℕ) : ℕ → List β
  | 0 => []
  | n + 1 => m (addr p) :: load m (p + 1) n

/-- Positions recur every `size` steps and not before. -/
def Circular (size : ℕ) : Prop := ∀ p q, addr p = addr q ↔ p % size = q % size

variable {addr} {m m' : ℕ → β} {p q n : ℕ} {bs cs : List β} {size : ℕ}

theorem length_load : (load addr m p n).length = n := by
  induction n generalizing p with
  | zero => rfl
  | succ n ih => simp only [load, List.length_cons, ih]

theorem load_add (k : ℕ) : load addr m p (n + k) = load addr m p n ++ load addr m (p + n) k := by
  induction n generalizing p with
  | zero => simp only [load, Nat.zero_add, Nat.add_zero, List.nil_append]
  | succ n ih =>
    rw [Nat.add_right_comm, load, ih, load, List.cons_append, Nat.add_right_comm p 1 n, Nat.add_assoc]

theorem getElem_load {k : ℕ} (h : k < (load addr m p n).length) :
    (load addr m p n)[k] = m (addr (p + k)) := by
  induction n generalizing p k with
  | zero => exact absurd h (Nat.not_lt_zero k)
  | succ n ih =>
    cases k with
    | zero => rfl
    | succ k =>
      simp only [load, List.getElem_cons_succ]
      rw [ih, Nat.add_right_comm, Nat.add_assoc]

theorem load_congr (h : ∀ i < n, m (addr (p + i)) = m' (addr (p + i))) :
    load addr m p n = load addr m' p n := by
  induction n generalizing p with
  | zero => rfl
  | succ n ih =>
    have h₀ := h 0 (Nat.succ_pos n)
    have h₁ := ih (p := p + 1) fun i hi ↦ by
      have hs := h (i + 1) (by omega)
      rwa [← Nat.add_assoc, Nat.add_right_comm] at hs
    simp only [Nat.add_zero] at h₀
    simp only [load, h₀, h₁]

theorem store_congr (h : ∀ i, addr (p + i) = addr (q + i)) : store addr m p bs = store addr m q bs := by
  induction bs generalizing m p q with
  | nil => rfl
  | cons b bs ih =>
    have h₀ : addr p = addr q := h 0
    rw [store, store, h₀]
    refine ih fun i ↦ ?_
    have hs := h (i + 1)
    rwa [← Nat.add_assoc, ← Nat.add_assoc, Nat.add_right_comm, Nat.add_right_comm q] at hs

theorem store_append : store addr m p (bs ++ cs) =
    store addr (store addr m p bs) (p + bs.length) cs := by
  induction bs generalizing m p with
  | nil => rfl
  | cons b bs ih => simp only [List.cons_append, store, ih, List.length_cons, Nat.add_right_comm,
      Nat.add_assoc]

theorem store_agree {a : ℕ} (h : m a = m' a) : store addr m p bs a = store addr m' p bs a := by
  induction bs generalizing m m' p with
  | nil => exact h
  | cons b bs ih =>
    refine ih ?_
    rw [Function.update_apply, Function.update_apply, h]

/-- A store reaches no address but those of its positions. -/
theorem store_frame {a : ℕ} (h : ∀ i < bs.length, addr (p + i) ≠ a) :
    store addr m p bs a = m a := by
  induction bs generalizing m p with
  | nil => rfl
  | cons b bs ih =>
    have h₀ : a ≠ addr p := fun ha ↦ h 0 (Nat.succ_pos _) (by rw [ha, Nat.add_zero])
    rw [store, ih fun i hi ↦ ?_, Function.update_of_ne h₀]
    have hs := h (i + 1) (by simpa using hi)
    rwa [← Nat.add_assoc, Nat.add_right_comm] at hs

theorem Circular.ne (hc : Circular addr size) (h : p < q) (h' : q < p + size) :
    addr p ≠ addr q := by
  intro he
  have hm := (hc p q).mp he
  have hd := Nat.sub_mod_eq_zero_of_mod_eq hm.symm
  rw [Nat.mod_eq_of_lt (by omega)] at hd
  omega

theorem load_store (hc : Circular addr size) (h : bs.length ≤ size) :
    load addr (store addr m p bs) p bs.length = bs := by
  induction bs generalizing m p with
  | nil => rfl
  | cons b bs ih =>
    have hb : store addr (Function.update m (addr p) b) (p + 1) bs (addr p) = b := by
      rw [store_frame, Function.update_self]
      intro i hi
      simp only [List.length_cons] at h
      exact (hc.ne (by omega) (by omega)).symm
    simp only [List.length_cons, load, store, hb, ih (Nat.le_of_succ_le h)]

theorem load_store_apart (hc : Circular addr size) (h : q + n ≤ p)
    (h' : p + bs.length ≤ q + size) : load addr (store addr m p bs) q n = load addr m q n := by
  refine load_congr fun i hi ↦ store_frame fun j hj ↦ ?_
  exact (hc.ne (by omega) (by omega)).symm

section Queue

variable (addr)

/-- Records `rs` stand in the memory from position `p` up to position `q`, each on `span`
positions, of which the encoding takes the first ones. -/
def Queue (span : ρ → ℕ) (enc : ℕ → ρ → List β) (m : ℕ → β) (p : ℕ) : List ρ → ℕ → Prop
  | [], q => p = q
  | r :: rs, q => load addr m p (enc p r).length = enc p r ∧ Queue span enc m (p + span r) rs q

variable {addr} {span : ρ → ℕ} {enc : ℕ → ρ → List β} {rs : List ρ}

theorem Queue.le (h : Queue addr span enc m p rs q) : p ≤ q := by
  induction rs generalizing p with
  | nil => exact Nat.le_of_eq h
  | cons r rs ih => exact Nat.le_trans (Nat.le_add_right p _) (ih h.2)

/-- A memory that agrees on the occupied positions holds the same queue. -/
theorem Queue.congr (hs : ∀ p r, (enc p r).length ≤ span r)
    (h : Queue addr span enc m p rs q) (hm : ∀ i, p ≤ i → i < q → m' (addr i) = m (addr i)) :
    Queue addr span enc m' p rs q := by
  induction rs generalizing p with
  | nil => exact h
  | cons r rs ih =>
    have hle := h.2.le
    have hsp := hs p r
    refine ⟨?_, ih h.2 fun i hi hi' ↦ hm i (by omega) hi'⟩
    have hl : load addr m' p (enc p r).length = load addr m p (enc p r).length :=
      load_congr fun i hi ↦ hm (p + i) (by omega) (by omega)
    exact hl.trans h.1

/-- The records behind the first ones form a queue of their own. -/
theorem Queue.drop {rs' : List ρ} (h : Queue addr span enc m p (rs ++ rs') q) :
    Queue addr span enc m (p + (rs.map span).sum) rs' q := by
  induction rs generalizing p with
  | nil => exact h
  | cons r rs ih =>
    have hrest := ih h.2
    rwa [Nat.add_assoc] at hrest

theorem Queue.append_one (r : ρ) (hr : load addr m q (enc q r).length = enc q r)
    (h : Queue addr span enc m p rs q) :
    Queue addr span enc m p (rs ++ [r]) (q + span r) := by
  induction rs generalizing p with
  | nil =>
    obtain rfl : p = q := h
    exact ⟨hr, rfl⟩
  | cons r' rs ih => exact ⟨h.1, ih h.2⟩

/-- A record is put behind the last one, as long as it does not run into the first. -/
theorem Queue.push (hc : Circular addr size) (hs : ∀ p r, (enc p r).length ≤ span r)
    (h : Queue addr span enc m p rs q) (r : ρ) (hr : q + span r ≤ p + size) :
    Queue addr span enc (store addr m q (enc q r)) p (rs ++ [r]) (q + span r) := by
  have hle := h.le
  have hsp := hs q r
  refine Queue.append_one r (load_store hc (by omega)) (h.congr hs fun i hi hi' ↦ ?_)
  exact store_frame fun j hj ↦ (hc.ne (by omega) (by omega)).symm

end Queue

end Enc28j60.CircularMemory
