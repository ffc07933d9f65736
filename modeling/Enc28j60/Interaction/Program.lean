import Mathlib

namespace Enc28j60.Interaction

/-- A program that drives a device through operations `Op`. Loops are kept as syntax,
because nothing bounds how often a device may be polled. -/
inductive Program (Op : Type) (Resp : Op → Type) : Type → Type 1
  | done {α : Type} (a : α) : Program Op Resp α
  | act {α : Type} (op : Op) (k : Resp op → Program Op Resp α) : Program Op Resp α
  | loop {α L : Type} (l : L) (body : L → Program Op Resp (L × Bool))
      (k : L → Program Op Resp α) : Program Op Resp α

namespace Program

variable {Op : Type} {Resp : Op → Type} {α β γ : Type}

protected def bind : Program Op Resp α → (α → Program Op Resp β) → Program Op Resp β
  | .done a, f => f a
  | .act op k, f => .act op (fun r ↦ (k r).bind f)
  | .loop l body k, f => .loop l body (fun l ↦ (k l).bind f)

instance : Monad (Program Op Resp) where
  pure := .done
  bind := .bind

/-- Perform one operation and return the device's response. -/
def perform (op : Op) : Program Op Resp (Resp op) := .act op .done

protected theorem bind_assoc (p : Program Op Resp α) (f : α → Program Op Resp β)
    (g : β → Program Op Resp γ) : (p.bind f).bind g = p.bind (fun a ↦ (f a).bind g) := by
  induction p with
  | done a => rfl
  | act op k ih => simp only [Program.bind, ih]
  | loop l body k _ ihk => simp only [Program.bind, ihk]

theorem bind_done (p : Program Op Resp α) : p.bind .done = p := by
  induction p with
  | done a => rfl
  | act op k ih => simp only [Program.bind, ih]
  | loop l body k _ ihk => simp only [Program.bind, ihk]

end Program

/-- The device a program talks to: what an operation does, and the events by which the
environment changes the device's state on its own. -/
structure Machine (Op : Type) (Resp : Op → Type) (S E : Type) where
  exec : (op : Op) → S → Resp op × S
  interfere : E → S → S

namespace Machine

open Program

variable {Op : Type} {Resp : Op → Type} {S E α β : Type} (M : Machine Op Resp S E)

def disturb (es : List E) (s : S) : S := es.foldl (fun s e ↦ M.interfere e s) s

/-- One step of a configuration. The events `es` strike just before the operation;
unfolding a loop is a step of its own, at which the device does nothing. -/
def tick (es : List E) : Program Op Resp α × S → Program Op Resp α × S
  | (.done a, s) => (.done a, s)
  | (.act op k, s) =>
    let r := M.exec op (M.disturb es s)
    (k r.1, r.2)
  | (.loop l body k, s) => ((body l).bind (fun r ↦ if r.2 then .loop r.1 body k else k r.1), s)

/-- `n` steps under the schedule `σ`, which says what strikes before each step. -/
def run (σ : ℕ → List E) : ℕ → Program Op Resp α × S → Program Op Resp α × S
  | 0, c => c
  | n + 1, c => run (fun i ↦ σ (i + 1)) n (M.tick (σ 0) c)

/-- The program comes to its end under `σ`, with this result and this state. -/
def Returns (σ : ℕ → List E) (p : Program Op Resp α) (s : S) (a : α) (s' : S) : Prop :=
  ∃ n, M.run σ n (p, s) = (.done a, s')

/-- Step `n` of the run performs `op`, and `s'` is the state it finds. -/
def Performs (σ : ℕ → List E) (p : Program Op Resp α) (s : S) (n : ℕ) (op : Op) (s' : S) : Prop :=
  ∃ k, (M.run σ n (p, s)).1 = .act op k ∧ s' = M.disturb (σ n) (M.run σ n (p, s)).2

theorem disturb_append (es fs : List E) (s : S) :
    M.disturb (es ++ fs) s = M.disturb fs (M.disturb es s) := List.foldl_append

theorem run_add (σ : ℕ → List E) (m n : ℕ) (c : Program Op Resp α × S) :
    M.run σ (m + n) c = M.run (fun i ↦ σ (i + m)) n (M.run σ m c) := by
  induction m generalizing σ c with
  | zero => simp only [Nat.zero_add, Nat.add_zero, run]
  | succ m ih =>
    rw [Nat.add_right_comm, run, ih, run]
    rfl

theorem run_succ (σ : ℕ → List E) (n : ℕ) (c : Program Op Resp α × S) :
    M.run σ (n + 1) c = M.tick (σ n) (M.run σ n c) := by
  rw [run_add]
  simp only [run, Nat.zero_add]

/-- In a run that nothing strikes it makes no difference what the events are. -/
theorem run_calm {E' : Type} (N : Machine Op Resp S E') (h : N.exec = M.exec) (n : ℕ)
    (c : Program Op Resp α × S) : N.run (fun _ ↦ []) n c = M.run (fun _ ↦ []) n c := by
  induction n generalizing c with
  | zero => rfl
  | succ n ih =>
    have htick : N.tick [] c = M.tick [] c := by
      obtain ⟨q, s⟩ := c
      cases q with
      | act op k => simp only [tick, disturb, List.foldl_nil, h]
      | _ => rfl
    simp only [run, htick]
    exact ih _

theorem run_done (σ : ℕ → List E) (n : ℕ) (a : α) (s : S) :
    M.run σ n (.done a, s) = (.done a, s) := by
  induction n generalizing σ with
  | zero => rfl
  | succ n ih => simp only [run, tick, ih]

theorem Returns.unique {σ : ℕ → List E} {p : Program Op Resp α} {s s₁ s₂ : S} {a₁ a₂ : α}
    (h₁ : M.Returns σ p s a₁ s₁) (h₂ : M.Returns σ p s a₂ s₂) : a₁ = a₂ ∧ s₁ = s₂ := by
  obtain ⟨m, hm⟩ := h₁
  obtain ⟨n, hn⟩ := h₂
  have hmn := M.run_add σ m n (p, s)
  have hnm := M.run_add σ n m (p, s)
  rw [hm, run_done] at hmn
  rw [hn, run_done, Nat.add_comm, hmn] at hnm
  injection hnm with hp hs
  injection hp with _ ha
  exact ⟨ha, hs⟩

end Machine

end Enc28j60.Interaction
