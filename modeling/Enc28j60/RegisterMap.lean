import Mathlib

namespace Enc28j60.RegisterMap

abbrev Byte := BitVec 8
abbrev Word := BitVec 16

section Words

def word (high low : Byte) : Word := high ++ low

theorem getLsbD_word (high low : Byte) (i : ℕ) :
    (word high low).getLsbD i = if i < 8 then low.getLsbD i else high.getLsbD (i - 8) := by
  rw [word, BitVec.getLsbD_append]

theorem shiftLeft_or (high low : Byte) :
    (high.setWidth 16 <<< 8 ||| low.setWidth 16) = word high low := by
  refine BitVec.eq_of_getLsbD_eq fun i hi ↦ ?_
  simp only [getLsbD_word, BitVec.getLsbD_or, BitVec.getLsbD_shiftLeft, BitVec.getLsbD_setWidth]
  grind

theorem or_shiftLeft (high low : Byte) :
    (low.setWidth 16 ||| high.setWidth 16 <<< 8) = word high low := by
  rw [BitVec.or_comm, shiftLeft_or]

theorem word_and_low (dummy low : Byte) : word dummy low &&& (0xff : Word) = low.setWidth 16 := by
  have hm : ∀ i < 16, (0xff : Word).getLsbD i = decide (i < 8) := by decide
  refine BitVec.eq_of_getLsbD_eq fun i hi ↦ ?_
  simp only [getLsbD_word, BitVec.getLsbD_and, BitVec.getLsbD_setWidth, hm i hi]
  grind

theorem word_setWidth (high low : Byte) : (word high low).setWidth 8 = low := by
  refine BitVec.eq_of_getLsbD_eq fun i hi ↦ ?_
  simp only [BitVec.getLsbD_setWidth, getLsbD_word]
  grind

/-- The shift drops the dummy byte in front of the high half. -/
theorem word_or_word (dummy dummy' high low : Byte) :
    (word dummy low &&& (0xff : Word)) ||| word dummy' high <<< 8 = word high low := by
  rw [word_and_low]
  refine BitVec.eq_of_getLsbD_eq fun i hi ↦ ?_
  simp only [getLsbD_word, BitVec.getLsbD_or, BitVec.getLsbD_shiftLeft, BitVec.getLsbD_setWidth]
  grind

theorem word_bytes (v : Word) : word ((v >>> 8).setWidth 8) (v.setWidth 8) = v := by
  refine BitVec.eq_of_getLsbD_eq fun i hi ↦ ?_
  simp only [getLsbD_word, BitVec.getLsbD_setWidth, BitVec.getLsbD_ushiftRight]
  grind

end Words

def rxBufferStartAddr : Word := 0x0
def rxBufferEndAddr : Word := 0x17ff
def txBufferStartAddr : Word := 0x1800

def macon360bPadded : ℕ := 0x01

def bufferMemoryArg : Byte := 0x1A
def softResetArg : Byte := 0x1F

inductive OpcodeT
  | readControlRegister | readBufferMemory | writeControlRegister | writeBufferMemory
  | bitFieldSet | bitFieldClear | systemResetCommand
  deriving DecidableEq

def OpcodeT.toByte : OpcodeT → Byte
  | .readControlRegister => 0x00
  | .readBufferMemory => 0x20
  | .writeControlRegister => 0x40
  | .writeBufferMemory => 0x60
  | .bitFieldSet => 0x80
  | .bitFieldClear => 0xA0
  | .systemResetCommand => 0xE0

inductive BankT
  | bank0 | bank1 | bank2 | bank3 | common
  deriving DecidableEq

def BankT.toNat : BankT → ℕ
  | .bank0 => 0
  | .bank1 => 1
  | .bank2 => 2
  | .bank3 => 3
  | .common => 4

/-- What the two-bit field `BSEL` keeps of a bank number. -/
def BankT.bits (b : BankT) : BitVec 2 := BitVec.ofNat 2 b.toNat

inductive RegTypeT
  | ethR | macR | miiR | phyR
  deriving DecidableEq

structure RegT where
  type : RegTypeT
  bank : BankT
  regAddr : Byte
  length : Byte
  deriving DecidableEq

def EIE : RegT := ⟨.ethR, .common, 0x1b, 1⟩
def EIR : RegT := ⟨.ethR, .common, 0x1c, 1⟩
def ESTAT : RegT := ⟨.ethR, .common, 0x1d, 1⟩
def ECON2 : RegT := ⟨.ethR, .common, 0x1e, 1⟩
def ECON1 : RegT := ⟨.ethR, .common, 0x1f, 1⟩

def ERDPTL : RegT := ⟨.ethR, .bank0, 0x00, 2⟩
def EWRPTL : RegT := ⟨.ethR, .bank0, 0x02, 2⟩
def ETXSTL : RegT := ⟨.ethR, .bank0, 0x04, 2⟩
def ETXNDL : RegT := ⟨.ethR, .bank0, 0x06, 2⟩
def ERXSTL : RegT := ⟨.ethR, .bank0, 0x08, 2⟩
def ERXNDL : RegT := ⟨.ethR, .bank0, 0x0a, 2⟩
def ERXRDPTL : RegT := ⟨.ethR, .bank0, 0x0c, 2⟩
def ERXWRPTL : RegT := ⟨.ethR, .bank0, 0x0e, 2⟩
def EDMASTL : RegT := ⟨.ethR, .bank0, 0x10, 2⟩
def EDMANDL : RegT := ⟨.ethR, .bank0, 0x12, 2⟩
def EDMADSTL : RegT := ⟨.ethR, .bank0, 0x14, 2⟩
def EDMACSL : RegT := ⟨.ethR, .bank0, 0x16, 2⟩

def EHT0 : RegT := ⟨.ethR, .bank1, 0x00, 1⟩
def EHT1 : RegT := ⟨.ethR, .bank1, 0x01, 1⟩
def EHT2 : RegT := ⟨.ethR, .bank1, 0x02, 1⟩
def EHT3 : RegT := ⟨.ethR, .bank1, 0x03, 1⟩
def EHT4 : RegT := ⟨.ethR, .bank1, 0x04, 1⟩
def EHT5 : RegT := ⟨.ethR, .bank1, 0x05, 1⟩
def EHT6 : RegT := ⟨.ethR, .bank1, 0x06, 1⟩
def EHT7 : RegT := ⟨.ethR, .bank1, 0x07, 1⟩
def EPMM0 : RegT := ⟨.ethR, .bank1, 0x08, 1⟩
def EPMM1 : RegT := ⟨.ethR, .bank1, 0x09, 1⟩
def EPMM2 : RegT := ⟨.ethR, .bank1, 0x0a, 1⟩
def EPMM3 : RegT := ⟨.ethR, .bank1, 0x0b, 1⟩
def EPMM4 : RegT := ⟨.ethR, .bank1, 0x0c, 1⟩
def EPMM5 : RegT := ⟨.ethR, .bank1, 0x0d, 1⟩
def EPMM6 : RegT := ⟨.ethR, .bank1, 0x0e, 1⟩
def EPMM7 : RegT := ⟨.ethR, .bank1, 0x0f, 1⟩
def EPMCSL : RegT := ⟨.ethR, .bank1, 0x10, 2⟩
def EPMOL : RegT := ⟨.ethR, .bank1, 0x14, 2⟩
def ERXFCON : RegT := ⟨.ethR, .bank1, 0x18, 1⟩
def EPKTCNT : RegT := ⟨.ethR, .bank1, 0x19, 1⟩

def MACON1 : RegT := ⟨.macR, .bank2, 0x00, 1⟩
def MACON3 : RegT := ⟨.macR, .bank2, 0x02, 1⟩
def MACON4 : RegT := ⟨.macR, .bank2, 0x03, 1⟩
def MABBIPG : RegT := ⟨.macR, .bank2, 0x04, 1⟩
def MAIPGL : RegT := ⟨.macR, .bank2, 0x06, 2⟩
def MACLCON1 : RegT := ⟨.macR, .bank2, 0x08, 1⟩
def MACLCON2 : RegT := ⟨.macR, .bank2, 0x09, 1⟩
def MAMXFLL : RegT := ⟨.macR, .bank2, 0x0a, 2⟩
def MICMD : RegT := ⟨.miiR, .bank2, 0x12, 1⟩
def MIREGADR : RegT := ⟨.miiR, .bank2, 0x14, 1⟩
def MIWRL : RegT := ⟨.miiR, .bank2, 0x16, 2⟩
def MIRDL : RegT := ⟨.miiR, .bank2, 0x18, 2⟩

def MAADR5 : RegT := ⟨.macR, .bank3, 0x00, 1⟩
def MAADR6 : RegT := ⟨.macR, .bank3, 0x01, 1⟩
def MAADR3 : RegT := ⟨.macR, .bank3, 0x02, 1⟩
def MAADR4 : RegT := ⟨.macR, .bank3, 0x03, 1⟩
def MAADR1 : RegT := ⟨.macR, .bank3, 0x04, 1⟩
def MAADR2 : RegT := ⟨.macR, .bank3, 0x05, 1⟩
def EBSTSD : RegT := ⟨.ethR, .bank3, 0x06, 1⟩
def EBSTCON : RegT := ⟨.ethR, .bank3, 0x07, 1⟩
def EBSTCSL : RegT := ⟨.ethR, .bank3, 0x08, 2⟩
def MISTAT : RegT := ⟨.miiR, .bank3, 0x0a, 1⟩
def EREVID : RegT := ⟨.ethR, .bank3, 0x12, 1⟩
def ECOCON : RegT := ⟨.ethR, .bank3, 0x15, 1⟩
def EFLOCON : RegT := ⟨.ethR, .bank3, 0x17, 1⟩
def EPAUSL : RegT := ⟨.ethR, .bank3, 0x18, 2⟩

def PHCON1 : RegT := ⟨.phyR, .common, 0x00, 2⟩
def PHSTAT1 : RegT := ⟨.phyR, .common, 0x01, 2⟩
def PHID1 : RegT := ⟨.phyR, .common, 0x02, 2⟩
def PHID2 : RegT := ⟨.phyR, .common, 0x03, 2⟩
def PHCON2 : RegT := ⟨.phyR, .common, 0x10, 2⟩
def PHSTAT2 : RegT := ⟨.phyR, .common, 0x11, 2⟩
def PHIE : RegT := ⟨.phyR, .common, 0x12, 2⟩
def PHIR : RegT := ⟨.phyR, .common, 0x13, 2⟩
def PHLCON : RegT := ⟨.phyR, .common, 0x14, 2⟩

/-- The register map, in the order of the header. -/
def registerMap : List RegT :=
  [EIE, EIR, ESTAT, ECON2, ECON1,
   ERDPTL, EWRPTL, ETXSTL, ETXNDL, ERXSTL, ERXNDL, ERXRDPTL, ERXWRPTL, EDMASTL, EDMANDL,
   EDMADSTL, EDMACSL,
   EHT0, EHT1, EHT2, EHT3, EHT4, EHT5, EHT6, EHT7, EPMM0, EPMM1, EPMM2, EPMM3, EPMM4, EPMM5,
   EPMM6, EPMM7, EPMCSL, EPMOL, ERXFCON, EPKTCNT,
   MACON1, MACON3, MACON4, MABBIPG, MAIPGL, MACLCON1, MACLCON2, MAMXFLL, MICMD, MIREGADR,
   MIWRL, MIRDL,
   MAADR5, MAADR6, MAADR3, MAADR4, MAADR1, MAADR2, EBSTSD, EBSTCON, EBSTCSL, MISTAT, EREVID,
   ECOCON, EFLOCON, EPAUSL,
   PHCON1, PHSTAT1, PHID1, PHID2, PHCON2, PHSTAT2, PHIE, PHIR, PHLCON]

/-- A member of a packed bit-field overlay. Its offset is the sum of the widths declared
before it, lowest bit first. -/
structure Field where
  offset : ℕ
  width : ℕ

namespace Field

def mask (f : Field) (n : ℕ) : BitVec n := BitVec.ofNat n ((2 ^ f.width - 1) <<< f.offset)

def set {n : ℕ} (f : Field) (x : ℕ) (v : BitVec n) : BitVec n :=
  (v &&& ~~~f.mask n) ||| (BitVec.ofNat n (x <<< f.offset) &&& f.mask n)

def get {n : ℕ} (f : Field) (v : BitVec n) : ℕ := (v.toNat >>> f.offset) % 2 ^ f.width

end Field

/-- Setting a field of one bit. -/
theorem Field.getLsbD_set_one {n k i : ℕ} (hi : i < n) (v : BitVec n) :
    ((⟨k, 1⟩ : Field).set 1 v).getLsbD i = (decide (i = k) || v.getLsbD i) := by
  have hmask : (BitVec.ofNat n (1 <<< k)).getLsbD i = decide (i = k) := by
    rw [BitVec.getLsbD_ofNat, Nat.one_shiftLeft, Nat.testBit_two_pow]
    simp [hi, eq_comm]
  have hm : (⟨k, 1⟩ : Field).mask n = BitVec.ofNat n (1 <<< k) := rfl
  rw [Field.set, hm, BitVec.and_self, BitVec.getLsbD_or, BitVec.getLsbD_and, BitVec.getLsbD_not, hmask]
  by_cases h : i = k <;> simp [h, hi]

def EstatReg.clkrdy : Field := ⟨0, 1⟩

def ErxfconReg.crcen : Field := ⟨1 + 1 + 1 + 1 + 1, 1⟩

def Macon1Reg.marxen : Field := ⟨0, 1⟩
def Macon1Reg.rxpaus : Field := ⟨1 + 1, 1⟩
def Macon1Reg.txpaus : Field := ⟨1 + 1 + 1, 1⟩

def Macon3Reg.fulldpx : Field := ⟨0, 1⟩
def Macon3Reg.frmlnen : Field := ⟨1, 1⟩
def Macon3Reg.txcrcen : Field := ⟨1 + 1 + 1 + 1, 1⟩
def Macon3Reg.padcfg : Field := ⟨1 + 1 + 1 + 1 + 1, 3⟩

def Econ1Reg.bsel : Field := ⟨0, 2⟩
def Econ1Reg.rxen : Field := ⟨2, 1⟩
def Econ1Reg.txrts : Field := ⟨2 + 1, 1⟩

def Econ2Reg.pktdec : Field := ⟨3 + 1 + 1 + 1, 1⟩
def Econ2Reg.autoinc : Field := ⟨3 + 1 + 1 + 1 + 1, 1⟩

def MistatReg8.busy : Field := ⟨0, 1⟩

def MicmdReg8.miird : Field := ⟨0, 1⟩

/-- The overlay declares `UNIPLEMENTED : 6` and `RESERVED : 1` before `PDPXMD`. -/
def Phcon1Reg16.pdpxmd : Field := ⟨6 + 1, 1⟩

/-- The byte a control register occupies: selected bank and address. The five addresses
from `0x1b` on are the same in every bank. -/
abbrev Cell := BitVec 2 × BitVec 5

instance : LawfulBEq Cell := inferInstance

def cell (bsel : BitVec 2) (a : BitVec 5) : Cell := if 0x1b ≤ a then (0, a) else (bsel, a)

/-- The cell of a register's low (`off = 0`) or high (`off = 1`) byte. -/
def RegT.cell (r : RegT) (off : Byte) : Cell := (r.bank.bits, (r.regAddr + off).setWidth 5)

def RegT.cells (r : RegT) : List Cell :=
  if r.length = 2 then [r.cell 0, r.cell 1] else [r.cell 0]

/-- The MAC and MII registers of the data sheet, whose reads start with a dummy byte. -/
def isMacMii (bsel : BitVec 2) (a : BitVec 5) : Bool :=
  (bsel == 2 && a < 0x1b) || (bsel == 3 && (a < 0x06 || a == 0x0a))

theorem registerMap_addr : ∀ r ∈ registerMap,
    r.regAddr < 0x20 ∧ (r.length = 2 → r.regAddr + 1 < 0x20) := by
  decide

theorem registerMap_length : ∀ r ∈ registerMap, r.length = 1 ∨ r.length = 2 := by decide

/-- A register's cell is the one its address reaches once its bank is selected. -/
theorem registerMap_cell : ∀ r ∈ registerMap, r.type ≠ .phyR → ∀ b : BitVec 2,
    (r.bank ≠ .common → b = r.bank.bits) →
    cell b (r.regAddr.setWidth 5) = r.cell 0 ∧
      (r.length = 2 → cell b ((r.regAddr + 1).setWidth 5) = r.cell 1) := by
  decide

theorem registerMap_macMii : ∀ r ∈ registerMap, r.type ≠ .phyR → ∀ b : BitVec 2,
    (r.bank ≠ .common → b = r.bank.bits) →
    isMacMii b (r.regAddr.setWidth 5) = (r.type != .ethR) ∧
      (r.length = 2 → isMacMii b ((r.regAddr + 1).setWidth 5) = (r.type != .ethR)) := by
  decide

end Enc28j60.RegisterMap
