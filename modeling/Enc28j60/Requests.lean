import Enc28j60.Integrity
import Enc28j60.Interaction.Trace

namespace Enc28j60.Requests

open Interaction RegisterMap SpiSlave Port LowLayer Interface Access Banking DataSheet Quiet
open Boot Operation Procedures Integrity

variable {si : Silicon} {c c' : Chip} {d : Enc28j60T} {s : Bus Chip} {x : Cell} {b : Byte}

section Accesses

/-- `TXRTS` has not risen, and nothing has been sent. -/
def Calm (c c' : Chip) : Prop := (c'.txrts = true → c.txrts = true) ∧ c'.sent = c.sent

theorem Calm.refl (c : Chip) : Calm c c := ⟨id, rfl⟩

end Accesses

section Runs

variable {α : Type} {σ : ℕ → List Event} {p : Program Io Io.Resp α} {n : ℕ} {LL_TEST : Bool} {mac : MacAddrT}
  {l : List (Call × Option (Word × (ℕ → Byte)))}

end Runs

end Enc28j60.Requests
