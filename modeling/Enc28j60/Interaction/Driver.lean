import Enc28j60.Interaction.Logic

namespace Enc28j60.Interaction

/-- A program with a record `D` of its own, which the device does not see. -/
abbrev Driver (D Op : Type) (Resp : Op → Type) := StateT D (Program Op Resp)

namespace Driver

variable {D Op : Type} {Resp : Op → Type} {α L : Type}

def perform (op : Op) : Driver D Op Resp (Resp op) :=
  fun d ↦ .act op (fun r ↦ .done (r, d))

/-- Run the body from `l`, and again from its result as long as it says so. -/
def iterate (l : L) (body : L → Driver D Op Resp (L × Bool)) : Driver D Op Resp L :=
  fun d ↦ .loop (l, d) (fun x ↦ ((body x.1).run x.2).bind fun r ↦ .done ((r.1.1, r.2), r.1.2)) .done

def doWhile [Inhabited α] (body : Driver D Op Resp α) (again : α → Bool) : Driver D Op Resp α :=
  iterate default fun _ ↦ do
    let a ← body
    pure (a, again a)

/-- A loop with an empty body and no way out. -/
def hang : Driver D Op Resp Unit := iterate () fun _ ↦ pure ((), true)

end Driver

namespace Machine

variable {D Op : Type} {Resp : Op → Type} {S E α β L : Type}
variable (M : Machine Op Resp S E) (G : Op → S → Prop) (tot : Prop)

/-- `wp` for a driver: the postcondition also speaks of the driver's own record. -/
def dwp (m : Driver D Op Resp α) (Q : α → D → S → Prop) (d : D) (s : S) : Prop :=
  M.wp G tot (m.run d) (fun r s' ↦ Q r.1 r.2 s') s

variable {M G tot} {m : Driver D Op Resp α} {Q : α → D → S → Prop} {d : D} {s : S}

theorem dwp_mono {R : α → D → S → Prop} (h : M.dwp G tot m Q d s)
    (hQR : ∀ a d s, Q a d s → R a d s) : M.dwp G tot m R d s :=
  wp_mono h fun r s' ↦ hQR r.1 r.2 s'

theorem dwp_guard {G' : Op → S → Prop} (h : M.dwp G tot m Q d s) (hG : ∀ op s, G op s → G' op s) :
    M.dwp G' tot m Q d s := wp_guard h hG

theorem dwp_partial (h : M.dwp G True m Q d s) : M.dwp G tot m Q d s := wp_partial h

theorem dwp_bind {f : α → Driver D Op Resp β} {Q : β → D → S → Prop} :
    M.dwp G tot (m >>= f) Q d s ↔ M.dwp G tot m (fun a d' s' ↦ M.dwp G tot (f a) Q d' s') d s :=
  wp_bind

theorem dwp_pure {a : α} : M.dwp G tot (pure a : Driver D Op Resp α) Q d s ↔ Q a d s := Iff.rfl

theorem dwp_map {f : β → α} {m : Driver D Op Resp β} :
    M.dwp G tot (f <$> m) Q d s ↔ M.dwp G tot m (fun b d' s' ↦ Q (f b) d' s') d s :=
  wp_bind

theorem dwp_get {Q : D → D → S → Prop} :
    M.dwp G tot (get : Driver D Op Resp D) Q d s ↔ Q d d s := Iff.rfl

theorem dwp_modify {f : D → D} {Q : PUnit → D → S → Prop} :
    M.dwp G tot (modify f : Driver D Op Resp PUnit) Q d s ↔ Q ⟨⟩ (f d) s := Iff.rfl

theorem dwp_perform {op : Op} {Q : Resp op → D → S → Prop} :
    M.dwp G tot (Driver.perform op) Q d s ↔ ∀ es, G op (M.disturb es s) ∧
      Q (M.exec op (M.disturb es s)).1 d (M.exec op (M.disturb es s)).2 := Iff.rfl

theorem dwp_iterate {l : L} {body : L → Driver D Op Resp (L × Bool)} {Q : L → D → S → Prop}
    (J : ℕ → L → D → S → Prop) (n : ℕ) (hJ : J n l d s)
    (hstep : ∀ n l d s, J n l d s → M.dwp G tot (body l) (fun r d' s' ↦
      (r.2 = true → ∃ m, (tot → m < n) ∧ J m r.1 d' s') ∧ (r.2 = false → Q r.1 d' s')) d s) :
    M.dwp G tot (Driver.iterate l body) Q d s :=
  ⟨fun n x s ↦ J n x.1 x.2 s, ⟨n, hJ⟩, fun n x s hx ↦ wp_bind.mpr (hstep n x.1 x.2 s hx)⟩

theorem dwp_doWhile [Inhabited α] {again : α → Bool}
    (J : ℕ → D → S → Prop) (n : ℕ) (hJ : J n d s)
    (hstep : ∀ n d s, J n d s → M.dwp G tot m (fun a d' s' ↦
      (again a = true → ∃ k, (tot → k < n) ∧ J k d' s') ∧ (again a = false → Q a d' s')) d s) :
    M.dwp G tot (Driver.doWhile m again) Q d s :=
  dwp_iterate (fun n _ ↦ J n) n hJ fun n _ d s h ↦ dwp_bind.mpr (hstep n d s h)

/-- In an infinite loop every state is allowed, as nothing is ever performed. -/
theorem dwp_hang {Q : Unit → D → S → Prop} : M.dwp G False Driver.hang Q d s :=
  dwp_iterate (fun _ _ _ _ ↦ True) 0 trivial fun n _ _ _ _ ↦
    ⟨fun _ ↦ ⟨n, False.elim, trivial⟩, fun h ↦ by cases h⟩

theorem dwp_ite {c : Prop} [Decidable c] {m₁ m₂ : Driver D Op Resp α}
    (h₁ : c → M.dwp G tot m₁ Q d s) (h₂ : ¬c → M.dwp G tot m₂ Q d s) :
    M.dwp G tot (if c then m₁ else m₂) Q d s := by
  split
  next h => exact h₁ h
  next h => exact h₂ h

theorem dwp_returns {σ : ℕ → List E} {a : α} {d' : D} {s' : S} (h : M.dwp G tot m Q d s)
    (hr : M.Returns σ (m.run d) s (a, d') s') : Q a d' s' := by
  have hQ := wp_returns h hr
  exact hQ

theorem dwp_total (h : M.dwp G True m Q d s) (σ : ℕ → List E) :
    ∃ a d' s', M.Returns σ (m.run d) s (a, d') s' ∧ Q a d' s' := by
  obtain ⟨r, s', hr, hQ⟩ := wp_total h σ
  exact ⟨r.1, r.2, s', hr, hQ⟩

end Machine

end Enc28j60.Interaction
