import Enc28j60.Interaction.Driver

namespace Enc28j60.Interaction.Machine

variable {D Op : Type} {Resp : Op → Type} {S E K R : Type}
variable (M : Machine Op Resp S E) (init : D → S → Prop) (ok : K → D → S → Prop)
  (call : K → Driver D Op Resp R)

/-- Calls made one after the other, each of which has returned, with their results. Before each
call, and after the last one, the environment does as it likes. -/
inductive Session : List (K × R) → D → S → Prop
  | start {d s} (h : init d s) : Session [] d s
  | event {l d s} (h : Session l d s) (e : E) : Session l d (M.interfere e s)
  | call {l d s r d' s'} (h : Session l d s) (k : K) (hk : ok k d s) (σ : ℕ → List E)
      (hr : M.Returns σ ((call k).run d) s (r, d') s') : Session (l ++ [(k, r)]) d' s'

variable {M init ok call}

/-- What holds at the start, and survives the events and every call, holds throughout. -/
theorem Session.invariant {G : Op → S → Prop} {I : List (K × R) → D → S → Prop}
    (hstart : ∀ d s, init d s → I [] d s)
    (hevent : ∀ l d s e, I l d s → I l d (M.interfere e s))
    (hcall : ∀ l d s k, ok k d s → I l d s →
      M.dwp G False (call k) (fun r d' s' ↦ I (l ++ [(k, r)]) d' s') d s)
    {l : List (K × R)} {d : D} {s : S} (h : M.Session init ok call l d s) : I l d s := by
  induction h with
  | start h => exact hstart _ _ h
  | event h e ih => exact hevent _ _ _ e ih
  | @call l d s r d' s' h k hk σ hr ih =>
    exact dwp_returns (Q := fun r d' s' ↦ I (l ++ [(k, r)]) d' s') (hcall l d s k hk ih) hr

end Enc28j60.Interaction.Machine
