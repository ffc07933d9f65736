import Enc28j60.Interaction.Driver
import Enc28j60.SpiSlave

namespace Enc28j60.Port

open Interaction RegisterMap SpiSlave

/-- The command byte `opcode | reg_addr + off` of a control register access, with the
register it names. -/
structure Cmd where
  opcode : OpcodeT
  reg : RegT
  off : Byte

def Cmd.addr (cmd : Cmd) : Byte := cmd.reg.regAddr + cmd.off

def Cmd.toByte (cmd : Cmd) : Byte := cmd.opcode.toByte ||| cmd.addr

/-- The calls through the table `enc28j60_io_t`. -/
inductive Io
  | uartInit
  | uartSendMsg (msg : String)
  | spiInit
  | csDeselect
  | csSelect
  | send1byte (cmd : Cmd) (data : Byte)
  | sendShortCmd (b : Byte)
  | read1byte (cmd : Cmd)
  | read2bytes (cmd : Cmd)

def Io.Resp : Io → Type
  | .sendShortCmd _ | .read1byte _ => Byte
  | .read2bytes _ => Word
  | _ => Unit

def readMask : Byte := 0x00

section

variable {C : Type} (D : Device C)

def enc28j60HwCsHigh (s : Bus C) : Bus C := ⟨.high, s.chip⟩

def enc28j60HwCsLow (s : Bus C) : Bus C := if s.window = .high then ⟨.opcode, s.chip⟩ else s

/-- Of the port set-up only the pin that drives the chip select reaches the chip. -/
def enc28j60HwSpiInit (s : Bus C) : Bus C := enc28j60HwCsHigh s

def enc28j60HwSendShortCmd (cmd : Byte) (s : Bus C) : Byte × Bus C := D.xfer cmd s

def enc28j60HwSendData8b (reg data : Byte) (s : Bus C) : Bus C :=
  (D.xfer data (D.xfer reg s).2).2

def enc28j60HwReadData8b (reg : Byte) (s : Bus C) : Byte × Bus C :=
  D.xfer 0 (D.xfer (readMask ||| reg) s).2

def enc28j60HwReadData16b (reg : Byte) (s : Bus C) : Word × Bus C :=
  let high := D.xfer 0 (D.xfer (readMask ||| reg) s).2
  let low := D.xfer 0 high.2
  (high.1.setWidth 16 <<< 8 ||| low.1.setWidth 16, low.2)

/-- The table as `enc28j60_init` fills it. -/
def io : (op : Io) → Bus C → op.Resp × Bus C
  | .uartInit, s => ((), s)
  | .uartSendMsg _, s => ((), s)
  | .spiInit, s => ((), enc28j60HwSpiInit s)
  | .csDeselect, s => ((), enc28j60HwCsHigh s)
  | .csSelect, s => ((), enc28j60HwCsLow s)
  | .send1byte cmd data, s => ((), enc28j60HwSendData8b D cmd.toByte data s)
  | .sendShortCmd b, s => enc28j60HwSendShortCmd D b s
  | .read1byte cmd, s => enc28j60HwReadData8b D cmd.toByte s
  | .read2bytes cmd, s => enc28j60HwReadData16b D cmd.toByte s

/-- The chip on the bus. Its own events `ev` leave the bus alone. -/
def machine {E : Type} (ev : E → C → C) : Machine Io Io.Resp (Bus C) E where
  exec := io D
  interfere e s := ⟨s.window, ev e s.chip⟩

end

end Enc28j60.Port
