import Enc28j60.RegisterMap

namespace Enc28j60.SpiSlave

open RegisterMap

/-- The chip behind its SPI port: what reading and writing a control register, the buffer
memory and the system reset do to its state. -/
structure Device (C : Type) where
  bsel : C → BitVec 2
  dummy : C → Byte
  readCell : Cell → C → Byte × C
  writeCell : Cell → Byte → C → C
  setBits : Cell → Byte → C → C
  clearBits : Cell → Byte → C → C
  readBuf : C → Byte × C
  writeBuf : Byte → C → C
  reset : C → C

/-- What the chip has decoded since the last falling edge of its chip select. -/
inductive Window
  | high | opcode
  | read (a : BitVec 5) | dummyFirst (a : BitVec 5)
  | write (a : BitVec 5) | set (a : BitVec 5) | clear (a : BitVec 5)
  | readBuf | writeBuf | finished
  deriving DecidableEq

structure Bus (C : Type) where
  window : Window
  chip : C

variable {C : Type} (D : Device C)

/-- The first byte of a window: three opcode bits and five argument bits. -/
def Device.decode (b : Byte) (c : C) : Bus C :=
  let a := b.setWidth 5
  match b.extractLsb' 5 3 with
  | 0 => if isMacMii (D.bsel c) a then ⟨.dummyFirst a, c⟩ else ⟨.read a, c⟩
  | 1 => if a = 0x1A then ⟨.readBuf, c⟩ else ⟨.finished, c⟩
  | 2 => ⟨.write a, c⟩
  | 3 => if a = 0x1A then ⟨.writeBuf, c⟩ else ⟨.finished, c⟩
  | 4 => if isMacMii (D.bsel c) a then ⟨.finished, c⟩ else ⟨.set a, c⟩
  | 5 => if isMacMii (D.bsel c) a then ⟨.finished, c⟩ else ⟨.clear a, c⟩
  | 7 => if a = 0x1F then ⟨.finished, D.reset c⟩ else ⟨.finished, c⟩
  | _ => ⟨.finished, c⟩

/-- One byte each way. -/
def Device.xfer (b : Byte) (s : Bus C) : Byte × Bus C :=
  let x a := cell (D.bsel s.chip) a
  match s.window with
  | .high | .finished => (0, s)
  | .opcode => (0, D.decode b s.chip)
  | .dummyFirst a => (D.dummy s.chip, ⟨.read a, s.chip⟩)
  | .read a => ((D.readCell (x a) s.chip).1, ⟨.finished, (D.readCell (x a) s.chip).2⟩)
  | .write a => (0, ⟨.finished, D.writeCell (x a) b s.chip⟩)
  | .set a => (0, ⟨.finished, D.setBits (x a) b s.chip⟩)
  | .clear a => (0, ⟨.finished, D.clearBits (x a) b s.chip⟩)
  | .readBuf => ((D.readBuf s.chip).1, ⟨.readBuf, (D.readBuf s.chip).2⟩)
  | .writeBuf => (0, ⟨.writeBuf, D.writeBuf b s.chip⟩)

end Enc28j60.SpiSlave
