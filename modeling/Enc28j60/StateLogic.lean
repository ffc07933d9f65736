import Mathlib

namespace Enc28j60.StateLogic

variable {σ α β : Type} {x : StateM σ α} {f : α → StateM σ β} {Q Q' : α → σ → Prop} {R : β → σ → Prop} {s : σ}

/-- What holds of the result and of the state once the program has run. -/
def wp (x : StateM σ α) (Q : α → σ → Prop) (s : σ) : Prop := Q (x.run s).1 (x.run s).2

theorem wp_mono (h : wp x Q s) (hQ : ∀ a s', Q a s' → Q' a s') : wp x Q' s := hQ _ _ h

theorem wp_and (h : wp x Q s) (h' : wp x Q' s) : wp x (fun a s' ↦ Q a s' ∧ Q' a s') s := ⟨h, h'⟩

@[simp] theorem wp_pure {a : α} : wp (pure a : StateM σ α) Q s ↔ Q a s := Iff.rfl

@[simp] theorem wp_bind : wp (x >>= f) R s ↔ wp x (fun a s' ↦ wp (f a) R s') s := Iff.rfl

@[simp] theorem wp_get {Q : σ → σ → Prop} : wp (get : StateM σ σ) Q s ↔ Q s s := Iff.rfl

@[simp] theorem wp_set {Q : PUnit → σ → Prop} {s' : σ} : wp (set s' : StateM σ PUnit) Q s ↔ Q ⟨⟩ s' := Iff.rfl

@[simp] theorem wp_modify {Q : PUnit → σ → Prop} {g : σ → σ} :
    wp (modify g : StateM σ PUnit) Q s ↔ Q ⟨⟩ (g s) := Iff.rfl

/-- The rule for a first part that is known by what it guarantees. -/
theorem wp_seq (h : wp x Q s) (hf : ∀ a s', Q a s' → wp (f a) R s') : wp (x >>= f) R s := hf _ _ h

theorem wp_ite {c : Prop} [Decidable c] {y : StateM σ α} (h : c → wp x Q s) (h' : ¬c → wp y Q s) :
    wp (if c then x else y) Q s := by
  by_cases hc : c
  · rw [if_pos hc]
    exact h hc
  · rw [if_neg hc]
    exact h' hc

/-- The invariant may speak of what the loop has gone through. -/
theorem wp_forM {g : α → StateM σ PUnit} {I : List α → σ → Prop} {l : List α} (done : List α) (h : I done s)
    (hstep : ∀ d a r, done ++ l = d ++ a :: r → done <+: d → ∀ s, I d s → wp (g a) (fun _ s' ↦ I (d ++ [a]) s') s) :
    wp (l.forM g) (fun _ s' ↦ I (done ++ l) s') s := by
  induction l generalizing done s with
  | nil =>
    rw [List.append_nil]
    exact h
  | cons a l ih =>
    refine wp_seq (hstep done a l rfl (List.prefix_refl _) s h) fun _ s' h' ↦ ?_
    have hl : done ++ a :: l = done ++ [a] ++ l := List.append_cons done a l
    rw [hl]
    refine ih _ h' fun d b r he hd ↦ hstep d b r (hl.trans he) ?_
    exact (List.prefix_append _ _).trans hd

/-- A loop whose passes keep an invariant keeps it. -/
theorem wp_forM_inv {g : α → StateM σ PUnit} {I : σ → Prop} {l : List α} (h : I s)
    (hstep : ∀ a ∈ l, ∀ s, I s → wp (g a) (fun _ s' ↦ I s') s) : wp (l.forM g) (fun _ s' ↦ I s') s := by
  refine wp_forM (I := fun _ ↦ I) [] h fun d a r he _ s hs ↦ hstep a ?_ s hs
  rw [List.nil_append] at he
  rw [he]
  exact List.mem_append_right _ List.mem_cons_self

end Enc28j60.StateLogic
