import Enc28j60.Interaction.Program

namespace Enc28j60.Interaction

open Program

variable {Op : Type} {Resp : Op → Type} {S E α β : Type}

namespace Machine

variable (M : Machine Op Resp S E) (G : Op → S → Prop) (tot : Prop)

/-- What must hold of the present state so that every operation the program performs from
here finds a state allowed by the guard `G`, and its end satisfies `Q`, whatever strikes in
between. A loop needs an invariant; when `tot` holds, its index must fall at every round. -/
def wp : {α : Type} → Program Op Resp α → (α → S → Prop) → S → Prop
  | _, .done a, Q, s => Q a s
  | _, .act op k, Q, s => ∀ es, G op (M.disturb es s) ∧
      wp (k (M.exec op (M.disturb es s)).1) Q (M.exec op (M.disturb es s)).2
  | _, .loop l body k, Q, s => ∃ J : ℕ → _ → S → Prop, (∃ n, J n l s) ∧
      ∀ n l s, J n l s → wp (body l) (fun r s' ↦
        (r.2 = true → ∃ m, (tot → m < n) ∧ J m r.1 s') ∧ (r.2 = false → wp (k r.1) Q s')) s

variable {M G tot}

theorem wp_mono {p : Program Op Resp α} {Q R : α → S → Prop} {s : S}
    (h : M.wp G tot p Q s) (hQR : ∀ a s, Q a s → R a s) : M.wp G tot p R s := by
  induction p generalizing s with
  | done a => exact hQR a s h
  | act op k ih => exact fun es ↦ ⟨(h es).1, ih _ (h es).2 hQR⟩
  | loop l body k ihb ihk =>
    obtain ⟨J, hJ, hstep⟩ := h
    refine ⟨J, hJ, fun n l s hl ↦ ihb l (hstep n l s hl) fun r s' hr ↦ ?_⟩
    exact ⟨hr.1, fun hb ↦ ihk r.1 (hr.2 hb) hQR⟩

theorem wp_bind {p : Program Op Resp α} {f : α → Program Op Resp β} {Q : β → S → Prop} {s : S} :
    M.wp G tot (p.bind f) Q s ↔ M.wp G tot p (fun a s' ↦ M.wp G tot (f a) Q s') s := by
  induction p generalizing s with
  | done a => exact Iff.rfl
  | act op k ih => exact forall_congr' fun es ↦ and_congr_right fun _ ↦ ih _
  | loop l body k _ ihk => simp only [Program.bind, wp, ihk]

theorem wp_guard {G' : Op → S → Prop} {p : Program Op Resp α} {Q : α → S → Prop} {s : S}
    (h : M.wp G tot p Q s) (hG : ∀ op s, G op s → G' op s) : M.wp G' tot p Q s := by
  induction p generalizing s with
  | done a => exact h
  | act op k ih => exact fun es ↦ ⟨hG op _ (h es).1, ih _ (h es).2⟩
  | loop l body k ihb ihk =>
    obtain ⟨J, hJ, hstep⟩ := h
    refine ⟨J, hJ, fun n l s hl ↦ ihb l (wp_mono (hstep n l s hl) fun r s' hr ↦ ?_)⟩
    exact ⟨hr.1, fun hb ↦ ihk r.1 (hr.2 hb)⟩

/-- Total correctness gives partial correctness. -/
theorem wp_partial {p : Program Op Resp α} {Q : α → S → Prop} {s : S}
    (h : M.wp G True p Q s) : M.wp G tot p Q s := by
  induction p generalizing s with
  | done a => exact h
  | act op k ih => exact fun es ↦ ⟨(h es).1, ih _ (h es).2⟩
  | loop l body k ihb ihk =>
    obtain ⟨J, hJ, hstep⟩ := h
    refine ⟨J, hJ, fun n l s hl ↦ ihb l (wp_mono (hstep n l s hl) fun r s' hr ↦ ⟨?_, ?_⟩)⟩
    · intro hb
      obtain ⟨m, hm, hJm⟩ := hr.1 hb
      exact ⟨m, fun _ ↦ hm trivial, hJm⟩
    · exact fun hb ↦ ihk r.1 (hr.2 hb)

/-- An environment that can do no more than another one is no harder to work in. -/
theorem wp_environment {E' : Type} {M' : Machine Op Resp S E'} (hexec : M'.exec = M.exec)
    (hev : ∀ es s, ∃ fs, M'.disturb es s = M.disturb fs s) {p : Program Op Resp α}
    {Q : α → S → Prop} {s : S} (h : M.wp G tot p Q s) : M'.wp G tot p Q s := by
  induction p generalizing s with
  | done a => exact h
  | act op k ih =>
    intro es
    obtain ⟨fs, hfs⟩ := hev es s
    obtain ⟨hG, hk⟩ := h fs
    rw [hfs, hexec]
    exact ⟨hG, ih _ hk⟩
  | loop l body k ihb ihk =>
    obtain ⟨J, hJ, hstep⟩ := h
    refine ⟨J, hJ, fun n l s hl ↦ wp_mono (ihb l (hstep n l s hl)) fun r s' hr ↦ ?_⟩
    exact ⟨hr.1, fun hb ↦ ihk r.1 (hr.2 hb)⟩

theorem wp_tick {p : Program Op Resp α} {Q : α → S → Prop} {s : S} (es : List E)
    (h : M.wp G tot p Q s) :
    M.wp G tot (M.tick es (p, s)).1 Q (M.tick es (p, s)).2 := by
  cases p with
  | done a => exact h
  | act op k => exact (h es).2
  | loop l body k =>
    obtain ⟨J, ⟨n, hl⟩, hstep⟩ := h
    refine wp_bind.mpr (wp_mono (hstep n l s hl) fun r s' hr ↦ ?_)
    split
    next hb =>
      obtain ⟨m, _, hJm⟩ := hr.1 hb
      exact ⟨J, ⟨m, hJm⟩, hstep⟩
    next hb => exact hr.2 (Bool.eq_false_iff.mpr hb)

theorem wp_run {p : Program Op Resp α} {Q : α → S → Prop} {s : S} (σ : ℕ → List E) (n : ℕ)
    (h : M.wp G tot p Q s) : M.wp G tot (M.run σ n (p, s)).1 Q (M.run σ n (p, s)).2 := by
  induction n with
  | zero => exact h
  | succ n ih =>
    rw [run_succ]
    exact wp_tick (σ n) ih

/-- Soundness for results: what the program returns satisfies the postcondition. -/
theorem wp_returns {p : Program Op Resp α} {Q : α → S → Prop} {s s' : S} {σ : ℕ → List E} {a : α}
    (h : M.wp G tot p Q s) (hr : M.Returns σ p s a s') : Q a s' := by
  obtain ⟨n, hn⟩ := hr
  have hw := wp_run σ n h
  rw [hn] at hw
  exact hw

/-- Soundness for the guard: every operation of every run is performed in an allowed state,
whether or not the program ever returns. -/
theorem wp_performs {p : Program Op Resp α} {Q : α → S → Prop} {s s' : S} {σ : ℕ → List E}
    {n : ℕ} {op : Op} (h : M.wp G tot p Q s) (hp : M.Performs σ p s n op s') : G op s' := by
  obtain ⟨k, hk, rfl⟩ := hp
  have hw := wp_run σ n h
  rw [hk] at hw
  exact (hw (σ n)).1

/-- A total program reaches its continuation, under every schedule. -/
theorem wp_reaches {p : Program Op Resp α} {Q : α → S → Prop} {s : S} (h : M.wp G True p Q s)
    (f : α → Program Op Resp β) (σ : ℕ → List E) :
    ∃ n a s', Q a s' ∧ M.run σ n (p.bind f, s) = (f a, s') := by
  induction p generalizing s σ with
  | done a => exact ⟨0, a, s, h, rfl⟩
  | act op k ih =>
    obtain ⟨n, a, s', hQ, hn⟩ := ih _ (h (σ 0)).2 f (fun i ↦ σ (i + 1))
    exact ⟨n + 1, a, s', hQ, hn⟩
  | loop l body k ihb ihk =>
    obtain ⟨J, ⟨n, hl⟩, hstep⟩ := h
    induction n using Nat.strongRecOn generalizing l s σ with
    | _ n ih =>
      -- one round of the loop, with the rest of the loop as its continuation
      obtain ⟨i, r, s₁, hr, hi⟩ := ihb l (hstep n l s hl)
        (fun r ↦ (if r.2 then .loop r.1 body k else k r.1 : Program Op Resp _).bind f)
        (fun j ↦ σ (j + 1))
      have hround : M.run σ (i + 1) ((Program.loop l body k).bind f, s) =
          ((if r.2 then .loop r.1 body k else k r.1 : Program Op Resp _).bind f, s₁) := by
        rw [← hi]
        simp only [Program.bind, run, tick]
        congr 3
        funext r
        split <;> rfl
      have hrest : ∃ j a s', Q a s' ∧ M.run (fun j ↦ σ (j + (i + 1))) j
          ((if r.2 then .loop r.1 body k else k r.1 : Program Op Resp _).bind f, s₁) = (f a, s') := by
        split
        next hb =>
          obtain ⟨m, hm, hJm⟩ := hr.1 hb
          exact ih m (hm trivial) r.1 _ hJm
        next hb => exact ihk r.1 (hr.2 (Bool.eq_false_iff.mpr hb)) f _
      obtain ⟨j, a, s', hQ, hj⟩ := hrest
      refine ⟨i + 1 + j, a, s', hQ, ?_⟩
      rw [run_add, hround, hj]

/-- Soundness for termination: a total program returns, under every schedule. -/
theorem wp_total {p : Program Op Resp α} {Q : α → S → Prop} {s : S} (h : M.wp G True p Q s)
    (σ : ℕ → List E) : ∃ a s', M.Returns σ p s a s' ∧ Q a s' := by
  obtain ⟨n, a, s', hQ, hn⟩ := wp_reaches h .done σ
  rw [bind_done] at hn
  exact ⟨a, s', ⟨n, hn⟩, hQ⟩

end Machine

end Enc28j60.Interaction
