import Enc28j60.LowLayer

namespace Enc28j60.Access

open Interaction RegisterMap SpiSlave Port LowLayer

variable {C E α β : Type}

/-- What must hold of the chip at each access the driver makes. A register is accessed by the
first byte of a window. -/
structure Guard (C : Type) where
  read : Cmd → C → Prop
  write : Cmd → Byte → C → Prop
  short : Window → Byte → C → Prop

def Guard.allows (g : Guard C) : Io → Bus C → Prop
  | .send1byte cmd data, s => s.window = .opcode ∧ g.write cmd data s.chip
  | .read1byte cmd, s | .read2bytes cmd, s => s.window = .opcode ∧ g.read cmd s.chip
  | .sendShortCmd b, s => g.short s.window b s.chip
  | _, _ => True

/-- A guard that lets everything pass. -/
def Guard.anything : Guard C := ⟨fun _ _ ↦ True, fun _ _ _ ↦ True, fun _ _ _ ↦ True⟩

/-- What a driver is verified against: the chip and its own events, the guard on the
accesses, and whether the driver has to come to an end. -/
structure Setting (C E : Type) where
  device : Device C
  ev : E → C → C
  guard : Guard C
  tot : Prop

/-- No byte has been sent since the chip select last rose. -/
def Fresh (w : Window) : Prop := w = .high ∨ w = .opcode

/-- A byte of an ETH, MAC or MII register: the low one, or the high one where there is one. -/
def Addressed (reg : RegT) (off : Byte) : Prop :=
  reg ∈ registerMap ∧ reg.type ≠ .phyR ∧ (off = 0 ∨ off = 1 ∧ reg.length = 2)

def Selected (D : Device C) (reg : RegT) (c : C) : Prop :=
  reg.bank ≠ .common → D.bsel c = reg.bank.bits

section Addressing

variable {reg : RegT} {off : Byte} {D : Device C} {c : C}

theorem regAddr_zero (reg : RegT) : reg.regAddr + 0 = reg.regAddr := BitVec.add_zero _

theorem Addressed.addr (h : Addressed reg off) : reg.regAddr + off < 0x20 := by
  obtain ⟨hr, _, rfl | ⟨rfl, hl⟩⟩ := h
  · have ha := (registerMap_addr reg hr).1
    rwa [regAddr_zero]
  · exact (registerMap_addr reg hr).2 hl

theorem Addressed.cell (h : Addressed reg off) (hc : Selected D reg c) :
    RegisterMap.cell (D.bsel c) ((reg.regAddr + off).setWidth 5) = reg.cell off := by
  obtain ⟨hr, ht, rfl | ⟨rfl, hl⟩⟩ := h
  · have ha := (registerMap_cell reg hr ht _ hc).1
    rwa [regAddr_zero]
  · exact (registerMap_cell reg hr ht _ hc).2 hl

theorem Addressed.macMii (h : Addressed reg off) (hc : Selected D reg c) :
    isMacMii (D.bsel c) ((reg.regAddr + off).setWidth 5) = (reg.type != .ethR) := by
  obtain ⟨hr, ht, rfl | ⟨rfl, hl⟩⟩ := h
  · have ha := (registerMap_macMii reg hr ht _ hc).1
    rwa [regAddr_zero]
  · exact (registerMap_macMii reg hr ht _ hc).2 hl

/-- The opcode bits and the address bits of a command byte are apart. -/
theorem toByte_or : ∀ (o : OpcodeT) (a : Byte), a < 0x20 →
    (o.toByte ||| a).extractLsb' 5 3 = o.toByte.extractLsb' 5 3 ∧
      (o.toByte ||| a).setWidth 5 = a.setWidth 5 := by
  intro o
  cases o <;> decide

theorem decode_write (h : Addressed reg off) :
    D.decode (Cmd.toByte ⟨.writeControlRegister, reg, off⟩) c =
      ⟨.write ((reg.regAddr + off).setWidth 5), c⟩ := by
  obtain ⟨ho, ha⟩ := toByte_or .writeControlRegister _ h.addr
  have ho' : (OpcodeT.writeControlRegister.toByte ||| (reg.regAddr + off)).extractLsb' 5 3 = 2 := ho
  simp only [Device.decode, Cmd.toByte, Cmd.addr, ho', ha]
  rfl

theorem decode_read (h : Addressed reg off) (hc : Selected D reg c) :
    D.decode (Cmd.toByte ⟨.readControlRegister, reg, off⟩) c =
      if reg.type = .ethR then ⟨.read ((reg.regAddr + off).setWidth 5), c⟩
      else ⟨.dummyFirst ((reg.regAddr + off).setWidth 5), c⟩ := by
  obtain ⟨ho, ha⟩ := toByte_or .readControlRegister _ h.addr
  have ho' : (OpcodeT.readControlRegister.toByte ||| (reg.regAddr + off)).extractLsb' 5 3 = 0 := ho
  simp only [Device.decode, Cmd.toByte, Cmd.addr, ho', ha, h.macMii hc]
  cases reg.type <;> rfl

theorem decode_set (h : Addressed reg off) (hc : Selected D reg c) (ht : reg.type = .ethR) :
    D.decode (Cmd.toByte ⟨.bitFieldSet, reg, off⟩) c =
      ⟨.set ((reg.regAddr + off).setWidth 5), c⟩ := by
  obtain ⟨ho, ha⟩ := toByte_or .bitFieldSet _ h.addr
  have ho' : (OpcodeT.bitFieldSet.toByte ||| (reg.regAddr + off)).extractLsb' 5 3 = 4 := ho
  simp only [Device.decode, Cmd.toByte, Cmd.addr, ho', ha, h.macMii hc, ht]
  rfl

theorem decode_clear (h : Addressed reg off) (hc : Selected D reg c) (ht : reg.type = .ethR) :
    D.decode (Cmd.toByte ⟨.bitFieldClear, reg, off⟩) c =
      ⟨.clear ((reg.regAddr + off).setWidth 5), c⟩ := by
  obtain ⟨ho, ha⟩ := toByte_or .bitFieldClear _ h.addr
  have ho' : (OpcodeT.bitFieldClear.toByte ||| (reg.regAddr + off)).extractLsb' 5 3 = 5 := ho
  simp only [Device.decode, Cmd.toByte, Cmd.addr, ho', ha, h.macMii hc, ht]
  rfl

end Addressing

namespace Setting

variable (B : Setting C E)

def machine : Machine Io Io.Resp (Bus C) E := Port.machine B.device B.ev

/-- The chip's own events keep `P`. -/
def Stable (P : C → Prop) : Prop := ∀ e c, P c → P (B.ev e c)

def Does (m : Drv α) (Q : α → Enc28j60T → Bus C → Prop) (d : Enc28j60T) (s : Bus C) : Prop :=
  B.machine.dwp B.guard.allows B.tot m Q d s

/-- A triple about the driver's record and the chip, for code that starts with no window
begun and ends with the chip select high. -/
def Spec (P : Enc28j60T → C → Prop) (m : Drv α) (Q : α → Enc28j60T → C → Prop) : Prop :=
  ∀ d s, Fresh s.window → P d s.chip →
    B.Does m (fun a d' s' ↦ s'.window = .high ∧ Q a d' s'.chip) d s

variable {B}

theorem Stable.disturb {P : C → Prop} (hP : B.Stable P) (es : List E) (s : Bus C)
    (h : P s.chip) : P (B.machine.disturb es s).chip := by
  induction es generalizing s with
  | nil => exact h
  | cons e es ih => exact ih _ (hP e _ h)

theorem window_disturb (es : List E) (s : Bus C) :
    (B.machine.disturb es s).window = s.window := by
  induction es generalizing s with
  | nil => rfl
  | cons e es ih => exact ih _

theorem Stable.and {P Q : C → Prop} (hP : B.Stable P) (hQ : B.Stable Q) :
    B.Stable fun c ↦ P c ∧ Q c :=
  fun e c h ↦ ⟨hP e c h.1, hQ e c h.2⟩

section Triple

variable {P : Enc28j60T → C → Prop} {m : Drv α} {Q : α → Enc28j60T → C → Prop}

theorem Spec.mono {P' : Enc28j60T → C → Prop} {Q' : α → Enc28j60T → C → Prop}
    (h : B.Spec P m Q) (hP : ∀ d c, P' d c → P d c) (hQ : ∀ a d c, Q a d c → Q' a d c) :
    B.Spec P' m Q' :=
  fun d s hs hp ↦ Machine.dwp_mono (h d s hs (hP d _ hp)) fun a d' _ hq ↦ ⟨hq.1, hQ a d' _ hq.2⟩

theorem Spec.bind {f : α → Drv β} {R : β → Enc28j60T → C → Prop} (h : B.Spec P m Q)
    (hf : ∀ a, B.Spec (Q a) (f a) R) : B.Spec P (m >>= f) R :=
  fun d s hs hp ↦ Machine.dwp_bind.mpr <| Machine.dwp_mono (h d s hs hp)
    fun a d' s' hq ↦ hf a d' s' (.inl hq.1) hq.2

/-- The last step of a triple whose code has raised the chip select before. -/
theorem Spec.bind_pure {f : α → β} {R : β → Enc28j60T → C → Prop} (h : B.Spec P m Q)
    (hf : ∀ a d c, Q a d c → R (f a) d c) : B.Spec P (m >>= fun a ↦ pure (f a)) R :=
  fun d s hs hp ↦ Machine.dwp_bind.mpr <| Machine.dwp_mono (h d s hs hp)
    fun a d' _ hq ↦ ⟨hq.1, hf a d' _ hq.2⟩

/-- Likewise for a last step that only updates the driver's record. -/
theorem Spec.bind_modify {g : α → Enc28j60T → Enc28j60T} {R : PUnit → Enc28j60T → C → Prop}
    (h : B.Spec P m Q) (hg : ∀ a d c, Q a d c → R ⟨⟩ (g a d) c) :
    B.Spec P (m >>= fun a ↦ modify (g a)) R :=
  fun d s hs hp ↦ Machine.dwp_bind.mpr <| Machine.dwp_mono (h d s hs hp)
    fun a d' _ hq ↦ ⟨hq.1, hg a d' _ hq.2⟩

theorem Spec.assoc {γ : Type} {f : α → Drv β} {k : β → Drv γ} {R : γ → Enc28j60T → C → Prop}
    (h : B.Spec P ((m >>= f) >>= k) R) : B.Spec P (m >>= fun a ↦ f a >>= k) R :=
  fun d s hs hp ↦ Machine.dwp_bind.mpr <| Machine.dwp_mono
    (Machine.dwp_bind.mp (Machine.dwp_bind.mp (h d s hs hp))) fun _ _ _ hk ↦ Machine.dwp_bind.mpr hk

theorem Spec.get_bind {f : Enc28j60T → Drv β} {R : β → Enc28j60T → C → Prop}
    (hf : ∀ e, B.Spec (fun d c ↦ d = e ∧ P d c) (f e) R) : B.Spec P (get >>= f) R :=
  fun d s hs hp ↦ hf d d s hs ⟨rfl, hp⟩

theorem Spec.modify_bind {g : Enc28j60T → Enc28j60T} {f : PUnit → Drv β}
    {P' : Enc28j60T → C → Prop} {R : β → Enc28j60T → C → Prop} (hg : ∀ d c, P d c → P' (g d) c)
    (hf : B.Spec P' (f ⟨⟩) R) : B.Spec P (modify g >>= f) R :=
  fun d s hs hp ↦ hf (g d) s hs (hg d _ hp)

theorem Spec.pre {R : Prop} (h : R → B.Spec P m Q) : B.Spec (fun d c ↦ R ∧ P d c) m Q :=
  fun d s hs hp ↦ h hp.1 d s hs hp.2

theorem Spec.exists {ι : Sort*} {P : ι → Enc28j60T → C → Prop} (h : ∀ i, B.Spec (P i) m Q) :
    B.Spec (fun d c ↦ ∃ i, P i d c) m Q := by
  rintro d s hs ⟨i, hp⟩
  exact h i d s hs hp

/-- A message on the serial line touches neither the chip nor its select. -/
theorem does_uart {msg : String} {P : C → Prop} {Q : Unit → Enc28j60T → Bus C → Prop}
    {d : Enc28j60T} {s : Bus C} (hP : B.Stable P) (h : P s.chip)
    (hQ : ∀ s', s'.window = s.window → P s'.chip → Q () d s') :
    B.Does (uartSendMsg msg) Q d s :=
  Machine.dwp_perform.mpr fun es ↦
    ⟨trivial, hQ _ (window_disturb (B := B) es s) (hP.disturb es s h)⟩

theorem does_uartInit {P : C → Prop} {Q : Unit → Enc28j60T → Bus C → Prop} {d : Enc28j60T}
    {s : Bus C} (hP : B.Stable P) (h : P s.chip)
    (hQ : ∀ s', s'.window = s.window → P s'.chip → Q () d s') : B.Does uartInit Q d s :=
  Machine.dwp_perform.mpr fun es ↦
    ⟨trivial, hQ _ (window_disturb (B := B) es s) (hP.disturb es s h)⟩

theorem Spec.uart {msg : String} {R : Unit → Enc28j60T → C → Prop} (h : B.Spec P m Q)
    (hQ : ∀ a d, B.Stable (Q a d)) (hR : ∀ a d c, Q a d c → R () d c) :
    B.Spec P (m >>= fun _ ↦ uartSendMsg msg) R := by
  refine fun d s hs hp ↦ Machine.dwp_bind.mpr (Machine.dwp_mono (h d s hs hp) ?_)
  rintro a d' s' ⟨hw, hq⟩
  exact does_uart (hQ a d') hq fun s'' hw' hq' ↦ ⟨hw'.trans hw, hR a d' _ hq'⟩

theorem Spec.ite {c : Prop} [Decidable c] {m' : Drv α} (h : c → B.Spec P m Q)
    (h' : ¬c → B.Spec P m' Q) : B.Spec P (if c then m else m') Q := by
  split
  next hc => exact h hc
  next hc => exact h' hc

end Triple

section Operations

variable {P : C → Prop} {d : Enc28j60T} {s : Bus C}

theorem does_csSelect {Q : Unit → Enc28j60T → Bus C → Prop} (hP : B.Stable P)
    (hs : Fresh s.window) (h : P s.chip) (hQ : ∀ c, P c → Q () d ⟨.opcode, c⟩) :
    B.Does csSelect Q d s := by
  refine Machine.dwp_perform.mpr fun es ↦ ⟨trivial, ?_⟩
  have hw : (enc28j60HwCsLow (B.machine.disturb es s)) =
      ⟨.opcode, (B.machine.disturb es s).chip⟩ := by
    have hd := window_disturb (B := B) es s
    unfold enc28j60HwCsLow
    rcases hs with hs | hs
    · rw [if_pos (hd.trans hs)]
    · rw [if_neg (by rw [hd, hs]; simp), ← hs, ← hd]
  have hq := hQ _ (hP.disturb es s h)
  rw [← hw] at hq
  exact hq

theorem does_csDeselect {Q : Unit → Enc28j60T → Bus C → Prop} (hP : B.Stable P)
    (h : P s.chip) (hQ : ∀ c, P c → Q () d ⟨.high, c⟩) : B.Does csDeselect Q d s :=
  Machine.dwp_perform.mpr fun es ↦ ⟨trivial, hQ _ (hP.disturb es s h)⟩

theorem readMask_or (b : Byte) : readMask ||| b = b := BitVec.zero_or

variable {cmd : Cmd}

theorem does_send1byte {b : Byte} {Q : Unit → Enc28j60T → Bus C → Prop} (hP : B.Stable P)
    (hs : s.window = .opcode) (h : P s.chip)
    (hQ : ∀ c, P c → B.guard.write cmd b c ∧
      Q () d (B.device.xfer b (B.device.decode cmd.toByte c)).2) :
    B.Does (send1byte cmd b) Q d s := by
  refine Machine.dwp_perform.mpr fun es ↦ ?_
  obtain ⟨hg, hq⟩ := hQ _ (hP.disturb es s h)
  refine ⟨⟨(window_disturb es s).trans hs, hg⟩, ?_⟩
  have hw : (B.device.xfer cmd.toByte (B.machine.disturb es s)).2 =
      B.device.decode cmd.toByte (B.machine.disturb es s).chip := by
    simp only [Device.xfer, window_disturb, hs]
  rw [← hw] at hq
  exact hq

theorem does_read1byte {Q : Byte → Enc28j60T → Bus C → Prop} (hP : B.Stable P)
    (hs : s.window = .opcode) (h : P s.chip)
    (hQ : ∀ c, P c → B.guard.read cmd c ∧
      Q (B.device.xfer 0 (B.device.decode cmd.toByte c)).1 d
        (B.device.xfer 0 (B.device.decode cmd.toByte c)).2) :
    B.Does (read1byte cmd) Q d s := by
  refine Machine.dwp_perform.mpr fun es ↦ ?_
  obtain ⟨hg, hq⟩ := hQ _ (hP.disturb es s h)
  refine ⟨⟨(window_disturb es s).trans hs, hg⟩, ?_⟩
  have hw : (B.device.xfer (readMask ||| cmd.toByte) (B.machine.disturb es s)).2 =
      B.device.decode cmd.toByte (B.machine.disturb es s).chip := by
    simp only [Device.xfer, window_disturb, hs, readMask_or]
  rw [← hw] at hq
  exact hq

theorem does_read2bytes {Q : Word → Enc28j60T → Bus C → Prop} (hP : B.Stable P)
    (hs : s.window = .opcode) (h : P s.chip)
    (hQ : ∀ c, P c → B.guard.read cmd c ∧
      let high := B.device.xfer 0 (B.device.decode cmd.toByte c)
      let low := B.device.xfer 0 high.2
      Q (high.1.setWidth 16 <<< 8 ||| low.1.setWidth 16) d low.2) :
    B.Does (read2bytes cmd) Q d s := by
  refine Machine.dwp_perform.mpr fun es ↦ ?_
  obtain ⟨hg, hq⟩ := hQ _ (hP.disturb es s h)
  refine ⟨⟨(window_disturb es s).trans hs, hg⟩, ?_⟩
  have hw : (B.device.xfer (readMask ||| cmd.toByte) (B.machine.disturb es s)).2 =
      B.device.decode cmd.toByte (B.machine.disturb es s).chip := by
    simp only [Device.xfer, window_disturb, hs, readMask_or]
  rw [← hw] at hq
  exact hq

theorem does_sendShortCmd {b : Byte} {Q : Byte → Enc28j60T → Bus C → Prop} {w : Window}
    (hP : B.Stable P) (hs : s.window = w) (h : P s.chip)
    (hQ : ∀ c, P c → B.guard.short w b c ∧
      Q (B.device.xfer b ⟨w, c⟩).1 d (B.device.xfer b ⟨w, c⟩).2) :
    B.Does (sendShortCmd b) Q d s := by
  refine Machine.dwp_perform.mpr fun es ↦ ?_
  have hw := window_disturb (B := B) es s
  obtain ⟨hg, hq⟩ := hQ _ (hP.disturb es s h)
  rw [← hs, ← hw] at hg hq
  exact ⟨hg, hq⟩

end Operations

section Cells

variable {P : C → Prop} {d : Enc28j60T} {s : Bus C} {reg : RegT} {off : Byte}

/-- A write goes to whatever the selected bank has at the address. -/
theorem does_write {b : Byte} {Q : Unit → Enc28j60T → Bus C → Prop} (ha : Addressed reg off)
    (hP : B.Stable P) (hs : s.window = .opcode) (h : P s.chip)
    (hQ : ∀ c, P c → B.guard.write ⟨.writeControlRegister, reg, off⟩ b c ∧
      Q () d ⟨.finished, B.device.writeCell
        (cell (B.device.bsel c) ((reg.regAddr + off).setWidth 5)) b c⟩) :
    B.Does (send1byte ⟨.writeControlRegister, reg, off⟩ b) Q d s := by
  refine does_send1byte hP hs h fun c hc ↦ ?_
  obtain ⟨hg, hq⟩ := hQ c hc
  refine ⟨hg, ?_⟩
  rw [decode_write ha]
  exact hq

theorem does_writeSelected {b : Byte} {Q : Unit → Enc28j60T → Bus C → Prop}
    (ha : Addressed reg off) (hP : B.Stable P) (hs : s.window = .opcode) (h : P s.chip)
    (hQ : ∀ c, P c → Selected B.device reg c ∧
      B.guard.write ⟨.writeControlRegister, reg, off⟩ b c ∧
      Q () d ⟨.finished, B.device.writeCell (reg.cell off) b c⟩) :
    B.Does (send1byte ⟨.writeControlRegister, reg, off⟩ b) Q d s := by
  refine does_write ha hP hs h fun c hc ↦ ?_
  obtain ⟨hsel, hg, hq⟩ := hQ c hc
  rw [ha.cell hsel]
  exact ⟨hg, hq⟩

theorem does_set {b : Byte} {Q : Unit → Enc28j60T → Bus C → Prop} (ha : Addressed reg off)
    (ht : reg.type = .ethR) (hP : B.Stable P) (hs : s.window = .opcode) (h : P s.chip)
    (hQ : ∀ c, P c → Selected B.device reg c ∧ B.guard.write ⟨.bitFieldSet, reg, off⟩ b c ∧
      Q () d ⟨.finished, B.device.setBits (reg.cell off) b c⟩) :
    B.Does (send1byte ⟨.bitFieldSet, reg, off⟩ b) Q d s := by
  refine does_send1byte hP hs h fun c hc ↦ ?_
  obtain ⟨hsel, hg, hq⟩ := hQ c hc
  refine ⟨hg, ?_⟩
  rw [decode_set ha hsel ht]
  simpa only [Device.xfer, ha.cell hsel] using hq

theorem does_clear {b : Byte} {Q : Unit → Enc28j60T → Bus C → Prop} (ha : Addressed reg off)
    (ht : reg.type = .ethR) (hP : B.Stable P) (hs : s.window = .opcode) (h : P s.chip)
    (hQ : ∀ c, P c → Selected B.device reg c ∧ B.guard.write ⟨.bitFieldClear, reg, off⟩ b c ∧
      Q () d ⟨.finished, B.device.clearBits (reg.cell off) b c⟩) :
    B.Does (send1byte ⟨.bitFieldClear, reg, off⟩ b) Q d s := by
  refine does_send1byte hP hs h fun c hc ↦ ?_
  obtain ⟨hsel, hg, hq⟩ := hQ c hc
  refine ⟨hg, ?_⟩
  rw [decode_clear ha hsel ht]
  simpa only [Device.xfer, ha.cell hsel] using hq

theorem does_readEth {Q : Byte → Enc28j60T → Bus C → Prop} (ha : Addressed reg off)
    (ht : reg.type = .ethR) (hP : B.Stable P) (hs : s.window = .opcode) (h : P s.chip)
    (hQ : ∀ c, P c → Selected B.device reg c ∧ B.guard.read ⟨.readControlRegister, reg, off⟩ c ∧
      Q (B.device.readCell (reg.cell off) c).1 d
        ⟨.finished, (B.device.readCell (reg.cell off) c).2⟩) :
    B.Does (read1byte ⟨.readControlRegister, reg, off⟩) Q d s := by
  refine does_read1byte hP hs h fun c hc ↦ ?_
  obtain ⟨hsel, hg, hq⟩ := hQ c hc
  refine ⟨hg, ?_⟩
  rw [decode_read ha hsel, if_pos ht]
  simpa only [Device.xfer, ha.cell hsel] using hq

/-- Whatever the dummy byte was, it is in the upper half of the result. -/
theorem does_readMacMii {Q : Word → Enc28j60T → Bus C → Prop} (ha : Addressed reg off)
    (ht : reg.type ≠ .ethR) (hP : B.Stable P) (hs : s.window = .opcode) (h : P s.chip)
    (hQ : ∀ c (dummy : Byte), P c → Selected B.device reg c ∧
      B.guard.read ⟨.readControlRegister, reg, off⟩ c ∧
      Q (word dummy (B.device.readCell (reg.cell off) c).1) d
        ⟨.finished, (B.device.readCell (reg.cell off) c).2⟩) :
    B.Does (read2bytes ⟨.readControlRegister, reg, off⟩) Q d s := by
  refine does_read2bytes hP hs h fun c hc ↦ ?_
  obtain ⟨hsel, hg, hq⟩ := hQ c (B.device.dummy c) hc
  refine ⟨hg, ?_⟩
  rw [decode_read ha hsel, if_neg ht]
  simpa only [Device.xfer, ha.cell hsel, shiftLeft_or] using hq

end Cells

end Setting

end Enc28j60.Access
