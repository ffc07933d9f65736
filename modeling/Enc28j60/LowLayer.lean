import Enc28j60.Port

namespace Enc28j60.LowLayer

open Interaction RegisterMap Port

structure EthRxHeaderT where
  nextPacketPtr : Word
  byteCount : Word
  status : Word
  deriving DecidableEq

structure Enc28j60T where
  bank : BankT
  encHeader : EthRxHeaderT
  nextRxPacketPtr : Word
  txBuffPtr : Word
  deriving DecidableEq

structure MacAddrT where
  addr1 : Byte
  addr2 : Byte
  addr3 : Byte
  addr4 : Byte
  addr5 : Byte
  addr6 : Byte

abbrev Drv := Driver Enc28j60T Io Io.Resp

def uartInit : Drv Unit := Driver.perform Io.uartInit
def uartSendMsg (msg : String) : Drv Unit := Driver.perform (Io.uartSendMsg msg)
def spiInit : Drv Unit := Driver.perform Io.spiInit
def csDeselect : Drv Unit := Driver.perform Io.csDeselect
def csSelect : Drv Unit := Driver.perform Io.csSelect
def send1byte (cmd : Cmd) (data : Byte) : Drv Unit := Driver.perform (Io.send1byte cmd data)
def sendShortCmd (b : Byte) : Drv Byte := Driver.perform (Io.sendShortCmd b)
def read1byte (cmd : Cmd) : Drv Byte := Driver.perform (Io.read1byte cmd)
def read2bytes (cmd : Cmd) : Drv Word := Driver.perform (Io.read2bytes cmd)

def enc28j60SoftReset : Drv Unit := do
  csSelect
  let _ ← sendShortCmd (OpcodeT.systemResetCommand.toByte ||| softResetArg)
  csDeselect

def enc28j60BankChanging (newBank : BankT) : Drv Unit := do
  csSelect
  let tmp ← read1byte ⟨.readControlRegister, ECON1, 0⟩
  csDeselect
  csSelect
  send1byte ⟨.writeControlRegister, ECON1, 0⟩ (Econ1Reg.bsel.set newBank.toNat tmp)
  csDeselect
  modify fun dev ↦ { dev with bank := newBank }

/-- The test every register access starts with. -/
def checkBank (reg : RegT) : Drv Unit := do
  let dev ← get
  if dev.bank ≠ reg.bank ∧ reg.bank ≠ .common then enc28j60BankChanging reg.bank else pure ()

/-- `case ETH_R` of `enc28j60_read_reg`. -/
def readEthR (reg : RegT) : Drv Word := do
  let ret ← read1byte ⟨.readControlRegister, reg, 0⟩
  if reg.length = 2 then do
    csDeselect
    csSelect
    let high ← read1byte ⟨.readControlRegister, reg, 1⟩
    pure (ret.setWidth 16 ||| high.setWidth 16 <<< 8)
  else pure (ret.setWidth 16)

/-- `case MAC_R: case MII_R` of `enc28j60_read_reg`. -/
def readMacMiiR (reg : RegT) : Drv Word := do
  let ret ← read2bytes ⟨.readControlRegister, reg, 0⟩
  if reg.length = 2 then do
    csDeselect
    csSelect
    let high ← read2bytes ⟨.readControlRegister, reg, 1⟩
    pure ((ret &&& (0xff : Word)) ||| high <<< 8)
  else pure (ret &&& (0xff : Word))

/-- `case PHY_R` of `enc28j60_read_reg`. The delay loop of 200 `__nop` is left out. -/
def readPhyR (reg : RegT) : Drv Word := do
  enc28j60BankChanging MIREGADR.bank
  csSelect
  let tmp ← read2bytes ⟨.readControlRegister, MICMD, 0⟩
  csDeselect
  csSelect
  send1byte ⟨.writeControlRegister, MIREGADR, 0⟩ reg.regAddr
  csDeselect
  csSelect
  send1byte ⟨.writeControlRegister, MICMD, 0⟩ (MicmdReg8.miird.set 1 (tmp.setWidth 8))
  csDeselect
  enc28j60BankChanging MISTAT.bank
  let _ ← Driver.doWhile (do
      csSelect
      let state ← read2bytes ⟨.readControlRegister, MISTAT, 0⟩
      csDeselect
      pure state)
    fun state ↦ MistatReg8.busy.get state = 1
  csDeselect
  csSelect
  enc28j60BankChanging MIREGADR.bank
  csSelect
  let tmp ← read2bytes ⟨.readControlRegister, MICMD, 0⟩
  csDeselect
  csSelect
  send1byte ⟨.writeControlRegister, MICMD, 0⟩ (MicmdReg8.miird.set 0 (tmp.setWidth 8))
  csDeselect
  csSelect
  let ret ← read2bytes ⟨.readControlRegister, MIRDL, 0⟩
  csDeselect
  csSelect
  let high ← read2bytes ⟨.readControlRegister, MIRDL, 1⟩
  pure ((ret &&& (0xff : Word)) ||| high <<< 8)

def enc28j60ReadReg (reg : RegT) : Drv Word := do
  checkBank reg
  csSelect
  let ret ← match reg.type with
    | .ethR => readEthR reg
    | .macR | .miiR => readMacMiiR reg
    | .phyR => readPhyR reg
  csDeselect
  pure ret

/-- `case ETH_R: case MAC_R: case MII_R` of `enc28j60_write_reg`. -/
def writeControlR (reg : RegT) (value : Word) : Drv Unit := do
  send1byte ⟨.writeControlRegister, reg, 0⟩ (value.setWidth 8)
  if reg.length = 2 then do
    csDeselect
    csSelect
    send1byte ⟨.writeControlRegister, reg, 1⟩ ((value >>> 8).setWidth 8)
  else pure ()

/-- `case PHY_R` of `enc28j60_write_reg`. -/
def writePhyR (reg : RegT) (value : Word) : Drv Unit := do
  send1byte ⟨.writeControlRegister, MIREGADR, 0⟩ reg.regAddr
  csDeselect
  csSelect
  send1byte ⟨.writeControlRegister, MIWRL, 0⟩ (value.setWidth 8)
  csDeselect
  csSelect
  send1byte ⟨.writeControlRegister, MIWRL, 1⟩ ((value >>> 8).setWidth 8)
  csDeselect
  csSelect
  let _ ← Driver.doWhile (do
      let state ← enc28j60ReadReg MISTAT
      csDeselect
      csSelect
      pure state)
    fun state ↦ MistatReg8.busy.get state = 1

def enc28j60WriteReg (reg : RegT) (value : Word) : Drv Unit := do
  checkBank reg
  csSelect
  match reg.type with
  | .ethR | .macR | .miiR => writeControlR reg value
  | .phyR => writePhyR reg value
  csDeselect

/-- The counter of the loop is an `int16_t`: past 32767 it goes on at -32768. -/
def enc28j60WriteBuf (buf : ℤ → Byte) (bufLng : Word) : Drv Unit := do
  csSelect
  let _ ← sendShortCmd (OpcodeT.writeBufferMemory.toByte ||| bufferMemoryArg)
  let _ ← Driver.iterate (0 : Word) fun i ↦
    if i.toInt < bufLng.toNat then do
      let _ ← sendShortCmd (buf i.toInt)
      pure (i + 1, true)
    else pure (i, false)
  csDeselect

/-- `buf` is the memory from the caller's pointer on; the result is that memory afterwards. -/
def enc28j60ReadBuf (buf : ℕ → Byte) (length : Word) : Drv (ℕ → Byte) := do
  csSelect
  let _ ← sendShortCmd (OpcodeT.readBufferMemory.toByte ||| bufferMemoryArg)
  let r ← Driver.iterate ((0 : Word), buf) fun r ↦
    if r.1 < length then do
      let b ← sendShortCmd 0xFF
      pure ((r.1 + 1, fun k ↦ if k = r.1.toNat then b else r.2 k), true)
    else pure (r, false)
  csDeselect
  pure r.2

def enc28j60BitfieldSet (reg : RegT) (mask : Byte) : Drv Unit :=
  if reg.type = .ethR then do
    checkBank reg
    csSelect
    send1byte ⟨.bitFieldSet, reg, 0⟩ mask
    csDeselect
  else pure ()

def enc28j60BitfieldClear (reg : RegT) (mask : Byte) : Drv Unit :=
  if reg.type = .ethR then do
    checkBank reg
    csSelect
    send1byte ⟨.bitFieldClear, reg, 0⟩ mask
    csDeselect
  else pure ()

/-- The report of one self-test: a failed one is never left. -/
def reportTest (msg : String) (passed : Bool) : Drv Unit := do
  uartSendMsg msg
  if passed then uartSendMsg "Test passed\n"
  else do
    uartSendMsg "Test failed\n"
    Driver.hang

def testVals : ℕ → Byte := fun i ↦ [0x12, 0x34, 0x56, 0x78].getD i 0

def llTest : Drv Unit := do
  uartInit
  let testVal : Word := 0x1234
  enc28j60WriteReg ERXSTL testVal
  let answer ← enc28j60ReadReg ERXSTL
  reportTest " MidWare Test1: Trying to write and read the ETH register\n" (answer = testVal)
  let _ ← Driver.doWhile (enc28j60ReadReg ESTAT) fun answer ↦ EstatReg.clkrdy.get answer = 0
  enc28j60WriteReg MAMXFLL testVal
  let answer ← enc28j60ReadReg MAMXFLL
  reportTest "MidWare Test2: Trying to write and read the MAC register\n" (answer = testVal)
  let valOfPhlconToLedOn : Word := 0x3883
  enc28j60WriteReg PHLCON valOfPhlconToLedOn
  let answer ← enc28j60ReadReg PHLCON
  reportTest "MidWare Test3: Trying to write and read the PHY register\n"
    (answer >>> 1 = valOfPhlconToLedOn >>> 1)
  let answer ← enc28j60ReadReg ECON2
  enc28j60WriteReg ECON2 (Econ2Reg.autoinc.set 1 answer)
  enc28j60WriteReg ERXSTL 0x00
  enc28j60WriteReg ERXNDL 0xfff
  enc28j60WriteReg EWRPTL 0x1000
  enc28j60WriteBuf (fun i ↦ testVals i.toNat) 4
  enc28j60WriteReg ERDPTL 0x1000
  let returnedVals ← enc28j60ReadBuf (fun _ ↦ 0) 4
  reportTest "MidWare Test4: Trying to write and read buffer memory\n"
    ((List.range 4).all fun i ↦ testVals i == returnedVals i)
  enc28j60SoftReset

/-- The part of `enc28j60_ll_init` behind the self-test. -/
def programRegisters (myAddr : MacAddrT) : Drv Unit := do
  enc28j60WriteReg ERXSTL rxBufferStartAddr
  enc28j60WriteReg ERXNDL rxBufferEndAddr
  enc28j60WriteReg ERXRDPTL rxBufferEndAddr
  let status ← enc28j60ReadReg ERXFCON
  enc28j60WriteReg ERXFCON (ErxfconReg.crcen.set 1 status)
  let status ← enc28j60ReadReg ECON2
  enc28j60WriteReg ECON2 (Econ2Reg.autoinc.set 1 status)
  let _ ← Driver.doWhile (enc28j60ReadReg ESTAT) fun status ↦ EstatReg.clkrdy.get status = 0
  let status ← enc28j60ReadReg MACON1
  enc28j60WriteReg MACON1
    (Macon1Reg.rxpaus.set 1 (Macon1Reg.txpaus.set 1 (Macon1Reg.marxen.set 1 status)))
  let status ← enc28j60ReadReg MACON3
  enc28j60WriteReg MACON3
    (Macon3Reg.fulldpx.set 1 (Macon3Reg.frmlnen.set 1
      (Macon3Reg.txcrcen.set 1 (Macon3Reg.padcfg.set macon360bPadded status))))
  enc28j60WriteReg MAMXFLL 1518
  enc28j60WriteReg MABBIPG 0x15
  enc28j60WriteReg MAADR1 (myAddr.addr1.setWidth 16)
  enc28j60WriteReg MAADR2 (myAddr.addr2.setWidth 16)
  enc28j60WriteReg MAADR3 (myAddr.addr3.setWidth 16)
  enc28j60WriteReg MAADR4 (myAddr.addr4.setWidth 16)
  enc28j60WriteReg MAADR5 (myAddr.addr5.setWidth 16)
  enc28j60WriteReg MAADR6 (myAddr.addr6.setWidth 16)
  let status ← enc28j60ReadReg PHCON1
  enc28j60WriteReg PHCON1 (Phcon1Reg16.pdpxmd.set 1 status)
  let status ← enc28j60ReadReg ECON1
  enc28j60WriteReg ECON1 (Econ1Reg.rxen.set 1 status)
  uartSendMsg "ECN28J60 init completed\n"

/-- `LL_TEST` is the compile-time switch; the repository's build defines it. -/
def enc28j60LlInit (LL_TEST : Bool) (myAddr : MacAddrT) : Drv Unit := do
  spiInit
  enc28j60SoftReset
  if LL_TEST then llTest else pure ()
  programRegisters myAddr

end Enc28j60.LowLayer
