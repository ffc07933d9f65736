import Enc28j60.LowLayer

namespace Enc28j60.Interface

open Interaction RegisterMap Port LowLayer

def encHeaderSize : Word := 6

def enc28j60Init (LL_TEST : Bool) (myAddr : MacAddrT) : Drv Unit := do
  modify fun dev ↦ { dev with
    bank := .common, nextRxPacketPtr := rxBufferStartAddr, txBuffPtr := txBufferStartAddr }
  enc28j60LlInit LL_TEST myAddr

/-- The memory of the header structure: three little-endian half-words. -/
def headerBytes (h : EthRxHeaderT) (k : ℕ) : Byte :=
  [h.nextPacketPtr.setWidth 8, (h.nextPacketPtr >>> 8).setWidth 8,
    h.byteCount.setWidth 8, (h.byteCount >>> 8).setWidth 8,
    h.status.setWidth 8, (h.status >>> 8).setWidth 8].getD k 0

def headerOfBytes (b : ℕ → Byte) : EthRxHeaderT where
  nextPacketPtr := b 1 ++ b 0
  byteCount := b 3 ++ b 2
  status := b 5 ++ b 4

def enc28j60ReadRxHeader : Drv Unit := do
  let dev ← get
  let b ← enc28j60ReadBuf (headerBytes dev.encHeader) encHeaderSize
  modify fun dev ↦ { dev with encHeader := headerOfBytes b }

/-- The number of bytes copied out: `byte_count` without the CRC, cut at `maxlen`. -/
def payloadLength (byteCount maxlen : Word) : Word :=
  let len := if 4 < byteCount then byteCount - 4 else byteCount
  if maxlen < len then maxlen else len

/-- The result is the returned length and the memory at `buf` afterwards. -/
def enc28j60ReceivePacket (buf : ℕ → Byte) (maxlen : Word) : Drv (Word × (ℕ → Byte)) := do
  let count ← enc28j60ReadReg EPKTCNT
  if count ≠ 0 then do
    let dev ← get
    enc28j60WriteReg ERDPTL dev.nextRxPacketPtr
    enc28j60ReadRxHeader
    let dev ← get
    let len := payloadLength dev.encHeader.byteCount maxlen
    let buf ← enc28j60ReadBuf buf len
    modify fun dev ↦ { dev with nextRxPacketPtr := dev.encHeader.nextPacketPtr }
    let dev ← get
    enc28j60WriteReg ERDPTL dev.nextRxPacketPtr
    if dev.encHeader.nextPacketPtr = rxBufferStartAddr then
      enc28j60WriteReg ERXRDPTL rxBufferEndAddr
    else
      enc28j60WriteReg ERXRDPTL (dev.encHeader.nextPacketPtr - 1)
    let regData ← enc28j60ReadReg ECON2
    enc28j60WriteReg ECON2 ((Econ2Reg.pktdec.set 1 (regData.setWidth 8 : Byte)).setWidth 16)
    pure (len, buf)
  else pure (0, buf)

/-- The wait loop of the two send functions. -/
def waitTxrts : Drv Word :=
  Driver.doWhile (enc28j60ReadReg ECON1) fun tmp ↦ Econ1Reg.txrts.get tmp = 1

def enc28j60SendPacket (buf : ℤ → Byte) (length : Word) : Drv Unit := do
  enc28j60WriteReg EWRPTL txBufferStartAddr
  enc28j60WriteBuf buf length
  let _ ← waitTxrts
  enc28j60WriteReg ETXNDL (txBufferStartAddr + length - 1)
  enc28j60WriteReg ETXSTL txBufferStartAddr
  let tmp16 ← enc28j60ReadReg ECON1
  enc28j60WriteReg ECON1 (Econ1Reg.txrts.set 1 tmp16)
  let _ ← waitTxrts

def enc28j60WriteToTx (buf : ℤ → Byte) (length : Word) : Drv Unit := do
  let dev ← get
  enc28j60WriteReg EWRPTL dev.txBuffPtr
  enc28j60WriteBuf buf length
  modify fun dev ↦ { dev with txBuffPtr := dev.txBuffPtr + length }

def enc28j60ReadyToSend : Drv Unit := do
  let _ ← waitTxrts
  let dev ← get
  enc28j60WriteReg ETXNDL (dev.txBuffPtr - 1)
  enc28j60WriteReg ETXSTL txBufferStartAddr
  let tmp ← enc28j60ReadReg ECON1
  enc28j60WriteReg ECON1 (Econ1Reg.txrts.set 1 tmp)
  let _ ← waitTxrts
  modify fun dev ↦ { dev with txBuffPtr := txBufferStartAddr }

def enc28j60PrepareToTx : Drv Unit :=
  modify fun dev ↦ { dev with txBuffPtr := txBufferStartAddr }

end Enc28j60.Interface
