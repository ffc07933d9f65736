import Enc28j60.Interaction.Driver

namespace Enc28j60.Interaction.Machine

open Program

variable {Op : Type} {Resp : Op → Type} {S E α : Type} (M : Machine Op Resp S E)

def performed : Program Op Resp α → List Op
  | .act op _ => [op]
  | .done _ => []
  | .loop _ _ _ => []

/-- The operations performed in the first `n` steps of a run. -/
def trace (σ : ℕ → List E) (p : Program Op Resp α) (s : S) : ℕ → List Op
  | 0 => []
  | n + 1 => trace σ p s n ++ performed (M.run σ n (p, s)).1

/-- The machine with a record of the operations so far. -/
def traced : Machine Op Resp (S × List Op) E where
  exec op s := ((M.exec op s.1).1, (M.exec op s.1).2, s.2 ++ [op])
  interfere e s := (M.interfere e s.1, s.2)

variable {M} {σ : ℕ → List E} {p : Program Op Resp α} {s : S} {l : List Op}

theorem disturb_traced (es : List E) (s : S) (l : List Op) :
    M.traced.disturb es (s, l) = (M.disturb es s, l) := by
  induction es generalizing s with
  | nil => rfl
  | cons e es ih => exact ih (M.interfere e s)

theorem tick_traced (es : List E) (p : Program Op Resp α) (s : S) (l : List Op) :
    M.traced.tick es (p, s, l) =
      ((M.tick es (p, s)).1, (M.tick es (p, s)).2, l ++ performed p) := by
  cases p with
  | done a => simp only [tick, performed, List.append_nil]
  | act op k =>
    simp only [tick, disturb_traced]
    rfl
  | loop x body k => simp only [tick, performed, List.append_nil]

/-- The record has no influence on the run. -/
theorem run_traced (σ : ℕ → List E) (n : ℕ) (p : Program Op Resp α) (s : S) (l : List Op) :
    M.traced.run σ n (p, s, l) =
      ((M.run σ n (p, s)).1, (M.run σ n (p, s)).2, l ++ M.trace σ p s n) := by
  induction n with
  | zero => simp only [run, trace, List.append_nil]
  | succ n ih => rw [run_succ, run_succ, ih, tick_traced, trace, List.append_assoc]

variable {G : Op → S × List Op → Prop} {tot : Prop} {Q : α → S × List Op → Prop}

theorem traced_done (h : M.traced.wp G tot p Q (s, l)) {n : ℕ} {a : α} {s' : S}
    (hn : M.run σ n (p, s) = (.done a, s')) : Q a (s', l ++ M.trace σ p s n) := by
  have hrun := run_traced (M := M) σ n p s l
  rw [hn] at hrun
  exact wp_returns h ⟨n, hrun⟩

theorem traced_performs (h : M.traced.wp G tot p Q (s, l)) {n : ℕ} {op : Op} {s' : S}
    (hp : M.Performs σ p s n op s') : G op (s', l ++ M.trace σ p s n) := by
  obtain ⟨k, hk, rfl⟩ := hp
  have hrun := run_traced (M := M) σ n p s l
  refine wp_performs (M := M.traced) (σ := σ) (n := n) h ⟨k, ?_, ?_⟩
  · rw [hrun, hk]
  · rw [hrun, disturb_traced]

/-- What holds of the record at the start, and after every operation the guard allows, holds
of it throughout. -/
theorem traced_invariant {I : List Op → Prop} (h₀ : I l) (h : M.traced.wp G tot p Q (s, l))
    (hG : ∀ op s l, G op (s, l) → I (l ++ [op])) (n : ℕ) : I (l ++ M.trace σ p s n) := by
  induction n with
  | zero =>
    rw [trace, List.append_nil]
    exact h₀
  | succ n ih =>
    rw [trace, ← List.append_assoc]
    cases hp : (M.run σ n (p, s)).1 with
    | act op k => exact hG op _ _ (traced_performs h ⟨k, hp, rfl⟩)
    | done a =>
      rw [performed, List.append_nil]
      exact ih
    | loop x body k =>
      rw [performed, List.append_nil]
      exact ih

theorem dwp_traced_perform {D : Type} {d : D} {op : Op} {Q : Resp op → D → S × List Op → Prop}
    (hG : ∀ s, G op (s, l)) (hQ : ∀ r s, Q r d (s, l ++ [op])) :
    M.traced.dwp G tot (Driver.perform op) Q d (s, l) := by
  refine dwp_perform.mpr fun es ↦ ?_
  rw [disturb_traced]
  exact ⟨hG _, hQ _ _⟩

end Enc28j60.Interaction.Machine
