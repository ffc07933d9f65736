import Enc28j60.Delivery

namespace Enc28j60.Retention

open Interaction RegisterMap SpiSlave Port LowLayer Interface Access Banking DataSheet
open Boot Operation Procedures CircularMemory Enc28j60.Ring Reception Delivery

variable {si : Silicon} {c : Chip} {d : Enc28j60T} {s : Bus Chip} {gone rs : List Frame} {owed n : ℕ}
  {f : Frame}

section Memory

/-- The addresses from the chip's write pointer up to `ERXRDPT`, which is not among them. -/
def Writable (c : Chip) (a : ℕ) : Prop := ∃ j < c.free, a = c.ringAddr (c.ringPos c.erxwrpt + j)

/-- The frames from the `n`-th one on stand where the chip has stored them, one behind the other, and
the chip may write none of the bytes they take. -/
def Spared (n : ℕ) (c : Chip) : Prop := ∀ k f, n ≤ k → c.accepted[k]? = some f →
  let p := extent (c.accepted.take k)
  load c.ringAddr c.mem p (enc p f).length = enc p f ∧ ∀ i < f.span, ¬Writable c (c.ringAddr (p + i))

theorem Spared.mono {m : ℕ} (h : Spared n c) (hm : n ≤ m) : Spared m c :=
  fun k f hk hf ↦ h k f (Nat.le_trans hm hk) hf

/-- `ERXRDPT` points into the buffer, to an odd address. -/
def Sound (c : Chip) : Prop := c.erxrdpt.toNat % 2 = 1 ∧ c.erxrdpt.toNat ≤ rxBufferEndAddr.toNat

end Memory

section Release

end Release

section Runs

variable {LL_TEST : Bool} {mac : MacAddrT} {l : List (((ℕ → Byte) × Word) × Word × (ℕ → Byte))}

end Runs

end Enc28j60.Retention
