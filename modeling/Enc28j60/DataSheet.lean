import Enc28j60.CircularMemory
import Enc28j60.Transfers

namespace Enc28j60.DataSheet

open RegisterMap SpiSlave CircularMemory

/-- A frame as the chip accepts it, CRC included, with the status bits it stores. -/
structure Frame where
  bytes : List Byte
  status : Word

/-- A transmission: the control byte and the bytes that follow it. -/
structure Sent where
  control : Byte
  bytes : List Byte

inductive Miim
  | write (addr : BitVec 5) (value : Word)
  | read (addr : BitVec 5)

/-- One specimen of the chip: its reset values and everything the data sheet leaves open. -/
structure Silicon where
  dummy : Byte
  resetRegs : Cell → Byte
  resetPhy : BitVec 5 → Word
  delay : ℕ → ℕ
  tsv : ℕ → ℕ → Byte
  econ1 : resetRegs (ECON1.cell 0) = 0
  econ2 : resetRegs (ECON2.cell 0) = 0x80

/-- The chip's state. `delay` is drawn from `draws` times so far. The fields from `accepted` on
record what has happened since the last reset. -/
structure Chip where
  regs : Cell → Byte
  phy : BitVec 5 → Word
  mem : ℕ → Byte
  epktcnt : Byte
  erxwrpt : Word
  erxrdpt : Word
  clkWait : ℕ
  txWait : ℕ
  mii : Option (Miim × ℕ)
  draws : ℕ
  accepted : List Frame
  pktcntSeen : List Byte
  econ1Seen : Byte
  sent : List Sent
  miim : List Miim
  stored : List ℕ

def memSize : ℕ := 0x2000

/-- The bytes the chip puts in front of a frame that starts at `p`. -/
def Frame.header (next : Word) (f : Frame) : List Byte :=
  let count : Word := BitVec.ofNat 16 f.bytes.length
  [next.setWidth 8, (next >>> 8).setWidth 8, count.setWidth 8, (count >>> 8).setWidth 8,
    f.status.setWidth 8, (f.status >>> 8).setWidth 8]

/-- The number of bytes a frame takes in the buffer, padded to an even number. -/
def Frame.span (f : Frame) : ℕ := 6 + f.bytes.length + f.bytes.length % 2

namespace Chip

variable (si : Silicon) (c : Chip)

def econ1 : Byte := c.regs (ECON1.cell 0)
def econ2 : Byte := c.regs (ECON2.cell 0)
def rxen : Bool := c.econ1.getLsbD 2
def txrts : Bool := c.econ1.getLsbD 3
def autoinc : Bool := c.econ2.getLsbD 7

/-- A pointer register, of which thirteen bits are implemented. -/
def ptr (r : RegT) : ℕ := (word (c.regs (r.cell 1)) (c.regs (r.cell 0))).toNat % memSize

def setReg (x : Cell) (b : Byte) : Chip := { c with regs := Function.update c.regs x b }

def setPtr (r : RegT) (a : ℕ) : Chip :=
  let w : Word := BitVec.ofNat 16 a
  (c.setReg (r.cell 0) (w.setWidth 8)).setReg (r.cell 1) ((w >>> 8).setWidth 8)

def ringSize : ℕ := (c.ptr ERXNDL + memSize - c.ptr ERXSTL) % memSize + 1

/-- Where position `p` of the receive buffer lies. -/
def ringAddr (p : ℕ) : ℕ := (c.ptr ERXSTL + p % c.ringSize) % memSize

def ringPos (a : Word) : ℕ := (a.toNat % memSize + memSize - c.ptr ERXSTL) % memSize

/-- The number of bytes from the write pointer up to `ERXRDPT`, which is never written. -/
def free : ℕ := (c.ringPos c.erxrdpt + c.ringSize - c.ringPos c.erxwrpt) % c.ringSize

/-- A frame that passes the filters arrives. There is no room for it unless it ends below
`ERXRDPT`, and a packet count of 255 keeps it out. -/
def arrive (f : Frame) : Chip :=
  if c.rxen ∧ c.epktcnt ≠ 255 ∧ 5 ≤ f.bytes.length ∧ f.span ≤ c.free then
    let p := c.ringPos c.erxwrpt
    let next : Word := BitVec.ofNat 16 (c.ringAddr (p + f.span))
    { c with
      mem := store c.ringAddr c.mem p (f.header next ++ f.bytes)
      erxwrpt := next
      epktcnt := c.epktcnt + 1
      accepted := c.accepted ++ [f] }
  else c

def memAddr (p : ℕ) : ℕ := p % memSize

/-- `TXRTS` is raised: the frame between `ETXST` and `ETXND` goes out. -/
def startTx : Chip :=
  let st := c.ptr ETXSTL
  let len := (c.ptr ETXNDL + memSize - st) % memSize
  { c with
    sent := c.sent ++ [⟨c.mem st, load memAddr c.mem (st + 1) len⟩]
    txWait := si.delay c.draws
    draws := c.draws + 1 }

/-- The chip is done with a transmission: the status vector goes behind the frame. -/
def finishTx : Chip :=
  let p := c.ptr ETXNDL + 1
  { c with
    regs := Function.update c.regs (ECON1.cell 0) (c.econ1 &&& ~~~0x08)
    mem := store memAddr c.mem p ((List.range 7).map (si.tsv c.sent.length))
    stored := c.stored ++ (List.range 7).map fun i ↦ memAddr (p + i) }

def startMiim (op : Miim) : Chip :=
  { c with mii := some (op, si.delay c.draws), draws := c.draws + 1, miim := c.miim ++ [op] }

def finishMiim : Miim → Chip
  | .write a v => { c with mii := none, phy := Function.update c.phy a v }
  | .read a =>
    let c' := (c.setReg (MIRDL.cell 0) ((c.phy a).setWidth 8)).setReg (MIRDL.cell 1)
      ((c.phy a >>> 8).setWidth 8)
    { c' with mii := none }

/-- What a register holds, as far as it is not one of the status bits below. -/
def peek (x : Cell) : Byte :=
  if x = EPKTCNT.cell 0 then c.epktcnt
  else if x = ERXWRPTL.cell 0 then c.erxwrpt.setWidth 8
  else if x = ERXWRPTL.cell 1 then (c.erxwrpt >>> 8).setWidth 8
  else c.regs x

def readEcon1 : Byte × Chip :=
  let c' := if c.txrts then
      match c.txWait with
      | 0 => c.finishTx si
      | n + 1 => { c with txWait := n }
    else c
  (c'.econ1, { c' with econ1Seen := c'.econ1 })

def readEstat : Byte × Chip :=
  let rest := c.regs (ESTAT.cell 0) &&& ~~~0x01
  match c.clkWait with
  | 0 => (rest ||| 0x01, c)
  | n + 1 => (rest, { c with clkWait := n })

def readMistat : Byte × Chip :=
  let rest := c.regs (MISTAT.cell 0) &&& ~~~0x01
  match c.mii with
  | none => (rest, c)
  | some (op, 0) => (rest, c.finishMiim op)
  | some (op, n + 1) => (rest ||| 0x01, { c with mii := some (op, n) })

def readCell (x : Cell) : Byte × Chip :=
  if x = ECON1.cell 0 then c.readEcon1 si
  else if x = ESTAT.cell 0 then c.readEstat
  else if x = MISTAT.cell 0 then c.readMistat
  else if x = EPKTCNT.cell 0 then (c.epktcnt, { c with pktcntSeen := c.pktcntSeen ++ [c.epktcnt] })
  else (c.peek x, c)

def writeEcon1 (b : Byte) : Chip :=
  let c' := c.setReg (ECON1.cell 0) b
  if b.getLsbD 3 ∧ ¬c.txrts then c'.startTx si else c'

/-- `PKTDEC` decrements the packet count and clears itself. -/
def writeEcon2 (b : Byte) : Chip :=
  let c' := c.setReg (ECON2.cell 0) (b &&& ~~~0x40)
  { c' with epktcnt := if b.getLsbD 6 then c.epktcnt - 1 else c.epktcnt }

/-- The low byte of `ERXRDPT` waits for the high one, and either pointer of the receive buffer
takes the write pointer back to its start. -/
def writeCell (x : Cell) (b : Byte) : Chip :=
  let c' := c.setReg x b
  if x = ECON1.cell 0 then c.writeEcon1 si b
  else if x = ECON2.cell 0 then c.writeEcon2 b
  else if x = ERXRDPTL.cell 1 then { c' with erxrdpt := word b (c.regs (ERXRDPTL.cell 0)) }
  else if x ∈ [ERXSTL.cell 0, ERXSTL.cell 1, ERXNDL.cell 0, ERXNDL.cell 1] then
    { c' with erxwrpt := word (c'.regs (ERXSTL.cell 1)) (c'.regs (ERXSTL.cell 0)) }
  else if x = MIWRL.cell 1 then
    c'.startMiim si (.write ((c.regs (MIREGADR.cell 0)).setWidth 5) (word b (c.regs (MIWRL.cell 0))))
  else if x = MICMD.cell 0 ∧ b.getLsbD 0 then
    c'.startMiim si (.read ((c.regs (MIREGADR.cell 0)).setWidth 5))
  else c'

/-- Read at `ERDPT`, which wraps from `ERXND` to `ERXST`. -/
def readBuf : Byte × Chip :=
  let a := c.ptr ERDPTL
  (c.mem a, if c.autoinc then
      c.setPtr ERDPTL (if a = c.ptr ERXNDL then c.ptr ERXSTL else (a + 1) % memSize)
    else c)

/-- Write at `EWRPT`. -/
def writeBuf (b : Byte) : Chip :=
  let a := c.ptr EWRPTL
  let c' := { c with mem := Function.update c.mem a b, stored := c.stored ++ [a] }
  if c.autoinc then c'.setPtr EWRPTL ((a + 1) % memSize) else c'

/-- The system reset. The buffer memory keeps its contents. -/
def reset : Chip where
  regs := si.resetRegs
  phy := si.resetPhy
  mem := c.mem
  epktcnt := 0
  erxwrpt := word (si.resetRegs (ERXSTL.cell 1)) (si.resetRegs (ERXSTL.cell 0))
  erxrdpt := word (si.resetRegs (ERXRDPTL.cell 1)) (si.resetRegs (ERXRDPTL.cell 0))
  clkWait := si.delay c.draws
  txWait := 0
  mii := none
  draws := c.draws + 1
  accepted := []
  pktcntSeen := []
  econ1Seen := 0
  sent := []
  miim := []
  stored := []

end Chip

def chip (si : Silicon) : Device Chip where
  bsel c := c.econ1.setWidth 2
  dummy _ := si.dummy
  readCell x c := c.readCell si x
  writeCell x b c := c.writeCell si x b
  setBits x m c := c.writeCell si x (c.peek x ||| m)
  clearBits x m c := c.writeCell si x (c.peek x &&& ~~~m)
  readBuf c := c.readBuf
  writeBuf b c := c.writeBuf b
  reset c := c.reset si

/-- What the chip does on its own. -/
inductive Event
  | arrive (f : Frame)
  | txDone

def Event.act (si : Silicon) : Event → Chip → Chip
  | .arrive f, c => c.arrive f
  | .txDone, c => if c.txrts then c.finishTx si else c

/-- A chip that answers at once and has all registers but `ECON2` at zero. -/
def specimen : Silicon where
  dummy := 0
  resetRegs := Function.update (fun _ ↦ 0) (ECON2.cell 0) 0x80
  resetPhy _ := 0
  delay _ := 0
  tsv _ _ := 0
  econ1 := by decide
  econ2 := by decide

def blank : Chip where
  regs := specimen.resetRegs
  phy := specimen.resetPhy
  mem _ := 0
  epktcnt := 0
  erxwrpt := 0
  erxrdpt := 0
  clkWait := 0
  txWait := 0
  mii := none
  draws := 0
  accepted := []
  pktcntSeen := []
  econ1Seen := 0
  sent := []
  miim := []
  stored := []

section Effects

variable {si : Silicon} {c : Chip} {x y : Cell}

theorem readCell_plain 
    (h : x ∉ [ECON1.cell 0, ESTAT.cell 0, MISTAT.cell 0, EPKTCNT.cell 0]) (c : Chip) :
    c.readCell si x = (c.peek x, c) := by
  simp only [List.mem_cons, List.not_mem_nil, or_false, not_or] at h
  rw [Chip.readCell, if_neg h.1, if_neg h.2.1, if_neg h.2.2.1, if_neg h.2.2.2]

/-- A write that only stores. -/
theorem writeCell_plain {x : Cell} (h : x ∉ [ECON1.cell 0, ECON2.cell 0, ERXRDPTL.cell 1,
    ERXSTL.cell 0, ERXSTL.cell 1, ERXNDL.cell 0, ERXNDL.cell 1, MIWRL.cell 1, MICMD.cell 0])
    (v : Byte) : c.writeCell si x v = c.setReg x v := by
  simp only [List.mem_cons, List.not_mem_nil, or_false, not_or] at h
  obtain ⟨h₁, h₂, h₃, h₄, h₅, h₆, h₇, h₈, h₉⟩ := h
  unfold Chip.writeCell
  rw [if_neg h₁, if_neg h₂, if_neg h₃, if_neg (by simp only [List.mem_cons, List.not_mem_nil, or_false, not_or]; exact ⟨h₄, h₅, h₆, h₇⟩), if_neg h₈,
    if_neg fun h ↦ h₉ h.1]

theorem regs_setReg (x y : Cell) (v : Byte) :
    (c.setReg x v).regs y = if y = x then v else c.regs y := Function.update_apply ..

theorem writeCell_miwrh (v : Byte) : c.writeCell si (MIWRL.cell 1) v =
    (c.setReg (MIWRL.cell 1) v).startMiim si
      (.write ((c.regs (MIREGADR.cell 0)).setWidth 5) (word v (c.regs (MIWRL.cell 0)))) := rfl

theorem miird_set : ∀ v : Byte, (MicmdReg8.miird.set 1 v).getLsbD 0 = true ∧
    (MicmdReg8.miird.set 0 v).getLsbD 0 = false := by decide

theorem writeCell_micmd {v : Byte} (hv : v.getLsbD 0 = true) : c.writeCell si (MICMD.cell 0) v =
    (c.setReg (MICMD.cell 0) v).startMiim si (.read ((c.regs (MIREGADR.cell 0)).setWidth 5)) := by
  unfold Chip.writeCell
  simp only [hv, and_true, if_true]
  rfl

theorem regs_writeCell (h : x ≠ ECON2.cell 0) (v : Byte) (y : Cell) :
    (c.writeCell si x v).regs y = if y = x then v else c.regs y := by
  rw [← regs_setReg]
  unfold Chip.writeCell
  split_ifs with h₁
  · subst h₁
    unfold Chip.writeEcon1
    simp only
    split <;> rfl
  all_goals rfl

theorem regs_econ2 (v : Byte) (y : Cell) : (c.writeCell si (ECON2.cell 0) v).regs y =
    if y = ECON2.cell 0 then v &&& ~~~0x40 else c.regs y := regs_setReg _ _ _

theorem phy_writeCell (x : Cell) (v : Byte) : (c.writeCell si x v).phy = c.phy := by
  unfold Chip.writeCell Chip.writeEcon1
  simp only
  split_ifs <;> rfl

theorem mem_writeCell (x : Cell) (v : Byte) : (c.writeCell si x v).mem = c.mem := by
  unfold Chip.writeCell Chip.writeEcon1
  simp only
  split_ifs <;> rfl

theorem Event.regs (e : Event) (h : x ≠ ECON1.cell 0) : (e.act si c).regs x = c.regs x := by
  cases e with
  | arrive f =>
    simp only [Event.act, Chip.arrive]
    split <;> rfl
  | txDone =>
    simp only [Event.act]
    split
    · exact Function.update_of_ne h _ _
    · rfl

theorem Event.phy (e : Event) : (e.act si c).phy = c.phy := by
  cases e with
  | arrive f =>
    simp only [Event.act, Chip.arrive]
    split <;> rfl
  | txDone =>
    simp only [Event.act]
    split <;> rfl

end Effects

section Bank

open Access Banking

variable {si : Silicon} {c : Chip}

theorem bsel_eq : (chip si).bsel c = c.econ1.setWidth 2 := rfl

theorem Chip.arrive_regs (f : Frame) : (c.arrive f).regs = c.regs := by
  unfold Chip.arrive
  split <;> rfl

theorem Chip.econ1_setReg (x : Cell) (b : Byte) :
    (c.setReg x b).econ1 = if x = ECON1.cell 0 then b else c.econ1 := by
  simp only [Chip.econ1, Chip.setReg, Function.update_apply, eq_comm]

theorem Chip.econ1_setPtr {r : RegT} (a : ℕ) (h : r.cell 0 ≠ ECON1.cell 0)
    (h' : r.cell 1 ≠ ECON1.cell 0) : (c.setPtr r a).econ1 = c.econ1 := by
  rw [Chip.setPtr, Chip.econ1_setReg, if_neg h', Chip.econ1_setReg, if_neg h]

theorem Chip.econ1_finishTx : (c.finishTx si).econ1 = c.econ1 &&& ~~~0x08 := by
  simp only [Chip.econ1, Chip.finishTx, Function.update_self]

theorem Chip.econ1_setReg_of_ne {x : Cell} (h : x ≠ ECON1.cell 0) (b : Byte) :
    (c.setReg x b).econ1 = c.econ1 := by
  rw [econ1_setReg, if_neg h]

theorem Chip.econ1_finishMiim (op : Miim) : (c.finishMiim op).econ1 = c.econ1 := by
  cases op with
  | write a v => rfl
  | read a =>
    change ((c.setReg (MIRDL.cell 0) ((c.phy a).setWidth 8)).setReg (MIRDL.cell 1)
      ((c.phy a >>> 8).setWidth 8)).econ1 = _
    rw [econ1_setReg_of_ne (by decide), econ1_setReg_of_ne (by decide)]

theorem Chip.econ1_writeCell (x : Cell) (b : Byte) :
    (c.writeCell si x b).econ1 = if x = ECON1.cell 0 then b else c.econ1 := by
  by_cases h : x = ECON1.cell 0
  · have hb : (c.setReg (ECON1.cell 0) b).econ1 = b := by rw [econ1_setReg, if_pos rfl]
    rw [if_pos h, Chip.writeCell, if_pos h, Chip.writeEcon1]
    split <;> exact hb
  · have hx := c.econ1_setReg_of_ne h b
    rw [if_neg h, Chip.writeCell, if_neg h]
    split_ifs with h₂
    · change (c.setReg (ECON2.cell 0) (b &&& ~~~0x40)).econ1 = _
      rw [econ1_setReg_of_ne (by decide)]
    all_goals exact hx

theorem setWidth_clearTxrts : ∀ v : Byte, (v &&& ~~~0x08).setWidth 2 = v.setWidth 2 := by decide

theorem Chip.bsel_readEcon1 : (c.readEcon1 si).2.econ1.setWidth 2 = c.econ1.setWidth 2 := by
  unfold Chip.readEcon1
  split
  · cases c.txWait with
    | zero =>
      change (c.finishTx si).econ1.setWidth 2 = _
      rw [econ1_finishTx, setWidth_clearTxrts]
    | succ n => rfl
  · rfl

theorem Chip.bsel_readCell (x : Cell) :
    (c.readCell si x).2.econ1.setWidth 2 = c.econ1.setWidth 2 := by
  unfold Chip.readCell
  split_ifs
  · exact bsel_readEcon1
  · unfold Chip.readEstat
    cases c.clkWait <;> rfl
  · unfold Chip.readMistat
    split
    · rfl
    · exact congrArg (BitVec.setWidth 2) (econ1_finishMiim _)
    · rfl
  · rfl
  · rfl

theorem Chip.econ1_readBuf : c.readBuf.2.econ1 = c.econ1 := by
  unfold Chip.readBuf
  simp only
  split
  · exact econ1_setPtr _ (by decide) (by decide)
  · rfl

theorem Chip.econ1_writeBuf (b : Byte) : (c.writeBuf b).econ1 = c.econ1 := by
  unfold Chip.writeBuf
  simp only
  split
  · exact econ1_setPtr _ (by decide) (by decide)
  · rfl

theorem Event.bsel (e : Event) : (e.act si c).econ1.setWidth 2 = c.econ1.setWidth 2 := by
  cases e with
  | arrive f => exact congrArg (fun r : Cell → Byte ↦ (r (ECON1.cell 0)).setWidth 2) (c.arrive_regs f)
  | txDone =>
    simp only [Event.act]
    split
    · rw [Chip.econ1_finishTx, setWidth_clearTxrts]
    · rfl

theorem lawful {E : Type} {ev : E → Chip → Chip} {g : Guard Chip} {tot : Prop}
    (hev : ∀ e c, (ev e c).econ1.setWidth 2 = c.econ1.setWidth 2) :
    Lawful (C := Chip) ⟨chip si, ev, g, tot⟩ where
  ev := hev
  readCell x c := c.bsel_readCell x
  writeCell x b c := by
    rw [bsel_eq, bsel_eq, ← apply_ite (BitVec.setWidth 2)]
    exact congrArg (BitVec.setWidth 2) (c.econ1_writeCell x b)
  setBits x m c := by
    have h : (c.writeCell si x (c.peek x ||| m)).econ1 = _ := c.econ1_writeCell x _
    rw [bsel_eq, bsel_eq]
    refine (congrArg (BitVec.setWidth 2) h).trans ?_
    split
    next hx =>
      subst hx
      exact BitVec.setWidth_or
    next => rfl
  clearBits x m c := by
    have h : (c.writeCell si x (c.peek x &&& ~~~m)).econ1 = _ := c.econ1_writeCell x _
    rw [bsel_eq, bsel_eq]
    refine (congrArg (BitVec.setWidth 2) h).trans ?_
    split
    next hx =>
      subst hx
      rw [BitVec.setWidth_and, BitVec.setWidth_not (by decide)]
      rfl
    next => rfl
  readBuf c := congrArg (BitVec.setWidth 2) c.econ1_readBuf
  writeBuf b c := congrArg (BitVec.setWidth 2) (c.econ1_writeBuf b)
  reset c := by
    have h : (c.reset si).econ1 = 0 := si.econ1
    rw [bsel_eq]
    exact congrArg (BitVec.setWidth 2) h

end Bank

end Enc28j60.DataSheet
