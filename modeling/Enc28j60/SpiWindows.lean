import Enc28j60.BankCache
import Enc28j60.BufferLoops

namespace Enc28j60.SpiWindows

open Interaction RegisterMap SpiSlave Port LowLayer Access BankCache BufferLoops DataSheet

section Wires

/-- The bytes an operation clocks out. -/
def bytes : Io → List Byte
  | .send1byte cmd data => [cmd.toByte, data]
  | .sendShortCmd b => [b]
  | .read1byte cmd => [readMask ||| cmd.toByte, 0]
  | .read2bytes cmd => [readMask ||| cmd.toByte, 0, 0]
  | _ => []

/-- These are the bytes that reach the chip. -/
theorem io_bytes {C : Type} (D : Device C) {op : Io} (h : bytes op ≠ []) (s : Bus C) :
    (io D op s).2 = (bytes op).foldl (fun s b ↦ (D.xfer b s).2) s := by
  cases op with
  | uartInit => exact absurd rfl h
  | uartSendMsg msg => exact absurd rfl h
  | spiInit => exact absurd rfl h
  | csDeselect => exact absurd rfl h
  | csSelect => exact absurd rfl h
  | send1byte cmd data => rfl
  | sendShortCmd b => rfl
  | read1byte cmd => rfl
  | read2bytes cmd => rfl

/-- What has been sent, cut at the edges of the chip select: the closed windows, the open one,
and what was sent while the chip was not selected. -/
structure Wire where
  closed : List (List Io)
  current : Option (List Io)
  stray : List Io

def raise (w : Wire) : Wire :=
  match w.current with
  | none => w
  | some x => { w with closed := w.closed ++ [x], current := none }

def transfer (w : Wire) (op : Io) : Wire :=
  match w.current with
  | none => { w with stray := w.stray ++ [op] }
  | some x => { w with current := some (x ++ [op]) }

def edge (w : Wire) : Io → Wire
  | .uartInit => w
  | .uartSendMsg _ => w
  | .spiInit => raise w
  | .csDeselect => raise w
  | .csSelect => { w with current := some (w.current.getD []) }
  | op => transfer w op

/-- The wires after the operations `l`, when the chip select was high before them. -/
def wire (l : List Io) : Wire := l.foldl edge ⟨[], none, []⟩

/-- The first byte of a command: opcode and argument are fields of their own. -/
def command (opcode : BitVec 3) (arg : BitVec 5) : Byte := opcode ++ arg

def address (reg : RegT) (off : Byte) : BitVec 5 := (reg.regAddr + off).setWidth 5

/-- The operations of a window that are one complete command, and the bytes of it. A buffer
command is complete when it has as many bytes as requested. -/
inductive Command (request : Option ℕ) : List Io → List Byte → Prop
  | readEth {reg : RegT} {off : Byte} (h : Addressed reg off) (ht : reg.type = .ethR) :
    Command request [.read1byte ⟨.readControlRegister, reg, off⟩] [command 0 (address reg off), 0]
  | readMacMii {reg : RegT} {off : Byte} (h : Addressed reg off) (ht : reg.type ≠ .ethR) :
    Command request [.read2bytes ⟨.readControlRegister, reg, off⟩]
      [command 0 (address reg off), 0, 0]
  | write {reg : RegT} {off : Byte} (h : Addressed reg off) (v : Byte) :
    Command request [.send1byte ⟨.writeControlRegister, reg, off⟩ v]
      [command 2 (address reg off), v]
  | set {reg : RegT} {off : Byte} (h : Addressed reg off) (ht : reg.type = .ethR) (m : Byte) :
    Command request [.send1byte ⟨.bitFieldSet, reg, off⟩ m] [command 4 (address reg off), m]
  | clear {reg : RegT} {off : Byte} (h : Addressed reg off) (ht : reg.type = .ethR) (m : Byte) :
    Command request [.send1byte ⟨.bitFieldClear, reg, off⟩ m] [command 5 (address reg off), m]
  | readBuf {n : ℕ} (h : request = some n) :
    Command request (.sendShortCmd 0x3A :: List.replicate n (.sendShortCmd 0xFF))
      (0x3A :: List.replicate n 0xFF)
  | writeBuf {data : List Byte} (h : request = some data.length) :
    Command request (.sendShortCmd 0x7A :: data.map .sendShortCmd) (0x7A :: data)
  | reset : Command request [.sendShortCmd 0xFF] [0xFF]

/-- Empty, or one complete command. -/
def WellFormed (request : Option ℕ) (window : List Io) : Prop :=
  window = [] ∨ Command request window (window.flatMap bytes)

structure Sound (request : Option ℕ) (w : Wire) : Prop where
  closed : ∀ x ∈ w.closed, WellFormed request x
  stray : w.stray = []

variable {request : Option ℕ} {w : Wire} {l : List Io} {reg : RegT} {off : Byte}

theorem wire_append (l : List Io) (op : Io) : wire (l ++ [op]) = edge (wire l) op := by
  simp only [wire, List.foldl_append, List.foldl_cons, List.foldl_nil]

theorem toByte_command (o : OpcodeT) (h : Addressed reg off) :
    Cmd.toByte ⟨o, reg, off⟩ = command (o.toByte.extractLsb' 5 3) (address reg off) := by
  have hfields : ∀ a : Byte, a < 0x20 →
      o.toByte ||| a = (o.toByte.extractLsb' 5 3 ++ a.setWidth 5 : BitVec (3 + 5)) := by
    cases o <;> decide
  exact hfields _ h.addr

theorem Sound.raise (h : Sound request w) (hw : ∀ x, w.current = some x → WellFormed request x) :
    Sound request (raise w) ∧ (raise w).current = none := by
  unfold SpiWindows.raise
  cases hc : w.current with
  | none => exact ⟨h, hc⟩
  | some x =>
    refine ⟨⟨fun y hy ↦ ?_, h.stray⟩, rfl⟩
    rcases List.mem_append.mp hy with hy | hy
    · exact h.closed y hy
    · rw [List.mem_singleton.mp hy]
      exact hw x hc

end Wires

section Triples

variable {C E α β : Type} (D : Device C) (ev : E → C → C) (request : Option ℕ)

/-- The windows closed so far are well formed, and the open one is as `P` says. -/
def Now (P : Option (List Io) → Prop) (l : List Io) : Prop :=
  Sound request (wire l) ∧ P (wire l).current

/-- From operations that satisfy `P` to operations that satisfy `Q`, with well-formed windows
all the way. -/
def Wired (P : Option (List Io) → Prop) (m : Drv α) (Q : Option (List Io) → Prop) : Prop :=
  ∀ d s l, Now request P l → (watchedBus D ev).dwp
    (fun op s ↦ Sound request (wire (s.2 ++ [op]))) False m (fun _ _ s' ↦ Now request Q s'.2) d (s, l)

def Idle (c : Option (List Io)) : Prop := c = none

/-- The chip is selected, and nothing has been sent. -/
def Armed (c : Option (List Io)) : Prop := c = some []

def Ready (c : Option (List Io)) : Prop := c = none ∨ c = some []

/-- The chip select may rise. -/
def Whole (c : Option (List Io)) : Prop := ∀ x, c = some x → WellFormed request x

variable {D ev request} {P Q R : Option (List Io) → Prop} {m : Drv α} {c : Option (List Io)}
  {reg : RegT} {off : Byte}

theorem Idle.ready (h : Idle c) : Ready c := .inl h

theorem Armed.ready (h : Armed c) : Ready c := .inr h

theorem Ready.whole (h : Ready c) : Whole request c := by
  intro x hx
  rcases h with h | h
  · rw [h] at hx
    cases hx
  · rw [h] at hx
    cases hx
    exact .inl rfl

theorem Wired.mono {P' Q' : Option (List Io) → Prop} (h : Wired D ev request P m Q)
    (hP : ∀ c, P' c → P c) (hQ : ∀ c, Q c → Q' c) : Wired D ev request P' m Q' :=
  fun d s l hl ↦ Machine.dwp_mono (h d s l ⟨hl.1, hP _ hl.2⟩) fun _ _ _ h' ↦ ⟨h'.1, hQ _ h'.2⟩

theorem Wired.bind {f : α → Drv β} (h : Wired D ev request P m Q)
    (hf : ∀ a, Wired D ev request Q (f a) R) : Wired D ev request P (m >>= f) R :=
  fun d s l hl ↦ Machine.dwp_bind.mpr (Machine.dwp_mono (h d s l hl) fun a d' s' h' ↦ hf a d' s'.1 s'.2 h')

theorem wired_pure (a : α) : Wired D ev request P (pure a) P := fun _ _ _ hl ↦ hl

theorem wired_get {f : Enc28j60T → Drv β} (hf : ∀ e, Wired D ev request P (f e) Q) :
    Wired D ev request P (get >>= f) Q :=
  fun d s l hl ↦ hf d d s l hl

theorem wired_modify (f : Enc28j60T → Enc28j60T) : Wired D ev request P (modify f) P :=
  fun _ _ _ hl ↦ hl

theorem wired_ite {p : Prop} [Decidable p] {m' : Drv α} (h : p → Wired D ev request P m Q)
    (h' : ¬p → Wired D ev request P m' Q) : Wired D ev request P (if p then m else m') Q := by
  split
  next hp => exact h hp
  next hp => exact h' hp

theorem wired_doWhile [Inhabited α] {again : α → Bool} (h : Wired D ev request P m P) :
    Wired D ev request P (Driver.doWhile m again) P := by
  intro d s l hl
  refine Machine.dwp_doWhile (fun _ _ s ↦ Now request P s.2) 0 hl fun n d s hs ↦ ?_
  refine Machine.dwp_mono (h d s.1 s.2 hs) fun a d' s' h' ↦ ⟨fun _ ↦ ⟨0, False.elim, h'⟩, fun _ ↦ h'⟩

theorem wired_perform {op : Io} (h : ∀ w, Sound request w → P w.current →
    Sound request (edge w op) ∧ Q (edge w op).current) : Wired D ev request P (Driver.perform op) Q := by
  intro d s l hl
  have hop := h _ hl.1 hl.2
  rw [← wire_append] at hop
  exact Machine.dwp_traced_perform (fun _ ↦ hop.1) fun _ _ ↦ hop

theorem wired_csSelect : Wired D ev request Ready csSelect Armed := by
  refine wired_perform fun w hw hc ↦ ⟨⟨hw.closed, hw.stray⟩, ?_⟩
  change some (w.current.getD []) = some []
  rcases hc with hc | hc
  · rw [hc, Option.getD_none]
  · rw [hc, Option.getD_some]

theorem wired_csDeselect : Wired D ev request (Whole request) csDeselect Idle :=
  wired_perform fun _ hw hc ↦ hw.raise hc

/-- A single transfer that is a complete command. -/
theorem wired_transfer {op : Io} (hedge : ∀ w, edge w op = transfer w op)
    (h : Command request [op] (bytes op)) :
    Wired D ev request Armed (Driver.perform op) (Whole request) := by
  refine wired_perform fun w hw hc ↦ ?_
  rw [hedge, transfer, show w.current = some [] from hc]
  refine ⟨⟨hw.closed, hw.stray⟩, fun x hx ↦ .inr ?_⟩
  cases hx
  simpa only [List.nil_append, List.flatMap_cons, List.flatMap_nil, List.append_nil] using h

theorem wired_readEth (h : Addressed reg off) (ht : reg.type = .ethR) :
    Wired D ev request Armed (read1byte ⟨.readControlRegister, reg, off⟩) (Whole request) := by
  have hc : Command request _ _ := .readEth h ht
  refine wired_transfer (fun _ ↦ rfl) ?_
  rw [bytes, Setting.readMask_or, toByte_command _ h]
  exact hc

theorem wired_readMacMii (h : Addressed reg off) (ht : reg.type ≠ .ethR) :
    Wired D ev request Armed (read2bytes ⟨.readControlRegister, reg, off⟩) (Whole request) := by
  have hc : Command request _ _ := .readMacMii h ht
  refine wired_transfer (fun _ ↦ rfl) ?_
  rw [bytes, Setting.readMask_or, toByte_command _ h]
  exact hc

theorem wired_write (h : Addressed reg off) (v : Byte) :
    Wired D ev request Armed (send1byte ⟨.writeControlRegister, reg, off⟩ v) (Whole request) := by
  have hc : Command request _ _ := .write h v
  refine wired_transfer (fun _ ↦ rfl) ?_
  rw [bytes, toByte_command _ h]
  exact hc

theorem wired_set (h : Addressed reg off) (ht : reg.type = .ethR) (v : Byte) :
    Wired D ev request Armed (send1byte ⟨.bitFieldSet, reg, off⟩ v) (Whole request) := by
  have hc : Command request _ _ := .set h ht v
  refine wired_transfer (fun _ ↦ rfl) ?_
  rw [bytes, toByte_command _ h]
  exact hc

theorem wired_clear (h : Addressed reg off) (ht : reg.type = .ethR) (v : Byte) :
    Wired D ev request Armed (send1byte ⟨.bitFieldClear, reg, off⟩ v) (Whole request) := by
  have hc : Command request _ _ := .clear h ht v
  refine wired_transfer (fun _ ↦ rfl) ?_
  rw [bytes, toByte_command _ h]
  exact hc

/-- The chip select rises and falls again. -/
theorem wired_next {f : Drv α} (h : Wired D ev request Armed f Q) :
    Wired D ev request (Whole request) (do csDeselect; csSelect; f) Q :=
  wired_csDeselect.bind fun _ ↦ (wired_csSelect.mono (fun _ ↦ Idle.ready) fun _ hc ↦ hc).bind fun _ ↦ h

end Triples

section Functions

variable {C E : Type} {D : Device C} {ev : E → C → C} {request : Option ℕ} {reg : RegT}

theorem wired_softReset : Wired D ev request Ready enc28j60SoftReset Idle := by
  have hreset : Wired D ev request Armed
      (sendShortCmd (OpcodeT.systemResetCommand.toByte ||| softResetArg)) (Whole request) :=
    wired_transfer (fun _ ↦ rfl) .reset
  exact wired_csSelect.bind fun _ ↦ hreset.bind fun _ ↦ wired_csDeselect

theorem wired_bankChanging (b : BankT) : Wired D ev request Ready (enc28j60BankChanging b) Idle := by
  have h : Addressed ECON1 0 := Banking.econ1_addressed
  refine wired_csSelect.bind fun _ ↦ (wired_readEth h rfl).bind fun tmp ↦ ?_
  exact wired_next ((wired_write h _).bind fun _ ↦ wired_csDeselect.bind fun _ ↦ wired_modify _)

theorem wired_checkBank (reg : RegT) : Wired D ev request Ready (checkBank reg) Ready := by
  refine wired_get fun dev ↦ wired_ite (fun _ ↦ ?_) fun _ ↦ wired_pure _
  exact (wired_bankChanging _).mono (fun _ hc ↦ hc) fun _ ↦ Idle.ready

theorem wired_readEthR (hr : reg ∈ registerMap) (ht : reg.type = .ethR) :
    Wired D ev request Armed (readEthR reg) (Whole request) := by
  have hn : reg.type ≠ .phyR := by
    rw [ht]
    decide
  refine (wired_readEth ⟨hr, hn, .inl rfl⟩ ht).bind fun ret ↦ ?_
  refine wired_ite (fun hl ↦ ?_) fun _ ↦ wired_pure _
  exact wired_next ((wired_readEth ⟨hr, hn, .inr ⟨rfl, hl⟩⟩ ht).bind fun high ↦ wired_pure _)

theorem wired_readMacMiiR (hr : reg ∈ registerMap) (ht : reg.type ≠ .ethR) (hn : reg.type ≠ .phyR) :
    Wired D ev request Armed (readMacMiiR reg) (Whole request) := by
  refine (wired_readMacMii ⟨hr, hn, .inl rfl⟩ ht).bind fun ret ↦ ?_
  refine wired_ite (fun hl ↦ ?_) fun _ ↦ wired_pure _
  exact wired_next ((wired_readMacMii ⟨hr, hn, .inr ⟨rfl, hl⟩⟩ ht).bind fun high ↦ wired_pure _)

/-- Bank switches are made with the chip selected, but nothing sent. -/
theorem wired_readPhyR (reg : RegT) : Wired D ev request Armed (readPhyR reg) (Whole request) := by
  have hmicmd : Addressed MICMD 0 := ⟨by decide, by decide, .inl rfl⟩
  have hmiregadr : Addressed MIREGADR 0 := ⟨by decide, by decide, .inl rfl⟩
  have hmistat : Addressed MISTAT 0 := ⟨by decide, by decide, .inl rfl⟩
  have hmirdl : Addressed MIRDL 0 := ⟨by decide, by decide, .inl rfl⟩
  have hmirdh : Addressed MIRDL 1 := ⟨by decide, by decide, .inr ⟨rfl, rfl⟩⟩
  have hselect : Wired D ev request Idle csSelect Armed :=
    wired_csSelect.mono (fun _ ↦ Idle.ready) fun _ hc ↦ hc
  have hpoll : Wired D ev request Idle (do
      csSelect
      let state ← read2bytes ⟨.readControlRegister, MISTAT, 0⟩
      csDeselect
      pure state) Idle :=
    hselect.bind fun _ ↦ (wired_readMacMii hmistat (by decide)).bind fun _ ↦
      wired_csDeselect.bind fun _ ↦ wired_pure _
  refine ((wired_bankChanging _).mono (fun _ ↦ Armed.ready) fun _ hc ↦ hc).bind fun _ ↦ ?_
  refine hselect.bind fun _ ↦ (wired_readMacMii hmicmd (by decide)).bind fun tmp ↦ ?_
  refine wired_next ((wired_write hmiregadr _).bind fun _ ↦ ?_)
  refine wired_next ((wired_write hmicmd _).bind fun _ ↦ wired_csDeselect.bind fun _ ↦ ?_)
  refine ((wired_bankChanging _).mono (fun _ ↦ Idle.ready) fun _ hc ↦ hc).bind fun _ ↦ ?_
  refine (wired_doWhile hpoll).bind fun _ ↦ ?_
  refine (wired_csDeselect.mono (fun _ hc ↦ (Idle.ready hc).whole) fun _ hc ↦ hc).bind fun _ ↦ ?_
  refine hselect.bind fun _ ↦ ?_
  refine ((wired_bankChanging _).mono (fun _ ↦ Armed.ready) fun _ hc ↦ hc).bind fun _ ↦ ?_
  refine hselect.bind fun _ ↦ (wired_readMacMii hmicmd (by decide)).bind fun tmp ↦ ?_
  refine wired_next ((wired_write hmicmd _).bind fun _ ↦ ?_)
  refine wired_next ((wired_readMacMii hmirdl (by decide)).bind fun ret ↦ ?_)
  exact wired_next ((wired_readMacMii hmirdh (by decide)).bind fun high ↦ wired_pure _)

theorem wired_readReg (hr : reg ∈ registerMap) :
    Wired D ev request Ready (enc28j60ReadReg reg) Idle := by
  refine (wired_checkBank reg).bind fun _ ↦ wired_csSelect.bind fun _ ↦ ?_
  have hend {m : Drv Word} (h : Wired D ev request Armed m (Whole request)) :
      Wired D ev request Armed (do
        let ret ← m
        csDeselect
        pure ret) Idle :=
    h.bind fun _ ↦ wired_csDeselect.bind fun _ ↦ wired_pure _
  cases ht : reg.type with
  | ethR => exact hend (wired_readEthR hr ht)
  | macR => exact hend (wired_readMacMiiR hr (by rw [ht]; decide) (by rw [ht]; decide))
  | miiR => exact hend (wired_readMacMiiR hr (by rw [ht]; decide) (by rw [ht]; decide))
  | phyR => exact hend (wired_readPhyR reg)

theorem wired_writeControlR (hr : reg ∈ registerMap) (hn : reg.type ≠ .phyR) (value : Word) :
    Wired D ev request Armed (writeControlR reg value) (Whole request) := by
  refine (wired_write ⟨hr, hn, .inl rfl⟩ _).bind fun _ ↦ ?_
  refine wired_ite (fun hl ↦ ?_) fun _ ↦ wired_pure _
  exact wired_next (wired_write ⟨hr, hn, .inr ⟨rfl, hl⟩⟩ _)

theorem wired_writePhyR (reg : RegT) (value : Word) :
    Wired D ev request Armed (writePhyR reg value) (Whole request) := by
  have hmiregadr : Addressed MIREGADR 0 := ⟨by decide, by decide, .inl rfl⟩
  have hmiwrl : Addressed MIWRL 0 := ⟨by decide, by decide, .inl rfl⟩
  have hmiwrh : Addressed MIWRL 1 := ⟨by decide, by decide, .inr ⟨rfl, rfl⟩⟩
  have hread : Wired D ev request Armed (enc28j60ReadReg MISTAT) (Whole request) :=
    (wired_readReg (by decide)).mono (fun _ ↦ Armed.ready) fun _ hc ↦ (Idle.ready hc).whole
  have hpoll : Wired D ev request Armed (do
      let state ← enc28j60ReadReg MISTAT
      csDeselect
      csSelect
      pure state) Armed := hread.bind fun _ ↦ wired_next (wired_pure _)
  refine (wired_write hmiregadr _).bind fun _ ↦ ?_
  refine wired_next ((wired_write hmiwrl _).bind fun _ ↦ ?_)
  refine wired_next ((wired_write hmiwrh _).bind fun _ ↦ wired_next ?_)
  refine (wired_doWhile hpoll).bind fun _ ↦ (wired_pure _).mono (fun _ hc ↦ ?_) fun _ hc ↦ hc
  exact (Armed.ready hc).whole

theorem wired_writeReg (hr : reg ∈ registerMap) (value : Word) :
    Wired D ev request Ready (enc28j60WriteReg reg value) Idle := by
  refine (wired_checkBank reg).bind fun _ ↦ wired_csSelect.bind fun _ ↦ ?_
  cases ht : reg.type with
  | ethR => exact (wired_writeControlR hr (by rw [ht]; decide) value).bind fun _ ↦ wired_csDeselect
  | macR => exact (wired_writeControlR hr (by rw [ht]; decide) value).bind fun _ ↦ wired_csDeselect
  | miiR => exact (wired_writeControlR hr (by rw [ht]; decide) value).bind fun _ ↦ wired_csDeselect
  | phyR => exact (wired_writePhyR reg value).bind fun _ ↦ wired_csDeselect

theorem wired_bitfieldSet (hr : reg ∈ registerMap) (mask : Byte) :
    Wired D ev request Idle (enc28j60BitfieldSet reg mask) Idle := by
  refine wired_ite (fun ht ↦ ?_) fun _ ↦ wired_pure _
  have hn : reg.type ≠ .phyR := by
    rw [ht]
    decide
  refine ((wired_checkBank reg).mono (fun _ ↦ Idle.ready) fun _ hc ↦ hc).bind fun _ ↦ ?_
  exact wired_csSelect.bind fun _ ↦ (wired_set ⟨hr, hn, .inl rfl⟩ ht mask).bind fun _ ↦ wired_csDeselect

theorem wired_bitfieldClear (hr : reg ∈ registerMap) (mask : Byte) :
    Wired D ev request Idle (enc28j60BitfieldClear reg mask) Idle := by
  refine wired_ite (fun ht ↦ ?_) fun _ ↦ wired_pure _
  have hn : reg.type ≠ .phyR := by
    rw [ht]
    decide
  refine ((wired_checkBank reg).mono (fun _ ↦ Idle.ready) fun _ hc ↦ hc).bind fun _ ↦ ?_
  exact wired_csSelect.bind fun _ ↦ (wired_clear ⟨hr, hn, .inl rfl⟩ ht mask).bind fun _ ↦ wired_csDeselect

end Functions

section Streams

variable {C E : Type} {D : Device C} {ev : E → C → C} {request : Option ℕ} {l v : List Io}
  {bs : List Byte}

/-- One window with the bytes `bs`. -/
def stream (bs : List Byte) : List Io := .csSelect :: bs.map .sendShortCmd ++ [.csDeselect]

theorem wire_stream (h : Ready (wire l).current) (bs : List Byte) :
    wire (l ++ .csSelect :: bs.map .sendShortCmd) =
      { wire l with current := some (bs.map .sendShortCmd) } := by
  have hshort (bs : List Byte) (w : Wire) (x : List Io) (hx : w.current = some x) :
      (bs.map Io.sendShortCmd).foldl edge w =
        { w with current := some (x ++ bs.map .sendShortCmd) } := by
    induction bs generalizing w x with
    | nil =>
      rw [List.map_nil, List.append_nil, ← hx]
      rfl
    | cons b bs ih =>
      have hedge : edge w (.sendShortCmd b) = { w with current := some (x ++ [.sendShortCmd b]) } := by
        change transfer w (.sendShortCmd b) = _
        rw [transfer, hx]
      rw [List.map_cons, List.foldl_cons, hedge, ih _ (x ++ [.sendShortCmd b]) rfl, List.append_assoc]
      rfl
  have hselect : (wire l).current.getD [] = [] := by
    rcases h with h | h
    · rw [h, Option.getD_none]
    · rw [h, Option.getD_some]
  have hfold : wire (l ++ .csSelect :: bs.map .sendShortCmd) =
      (bs.map Io.sendShortCmd).foldl edge { wire l with current := some [] } := by
    rw [wire, List.foldl_append, List.foldl_cons]
    change (bs.map Io.sendShortCmd).foldl edge
      { wire l with current := some ((wire l).current.getD []) } = _
    rw [hselect]
  rw [hfold, hshort bs _ [] rfl, List.nil_append]

theorem bytes_stream (bs : List Byte) : (bs.map Io.sendShortCmd).flatMap bytes = bs := by
  induction bs with
  | nil => rfl
  | cons b bs ih => rw [List.map_cons, List.flatMap_cons, ih, bytes, List.singleton_append]

theorem now_stream (hc : Command request (bs.map .sendShortCmd) bs) (hl : Now request Ready l) :
    Now request Idle (l ++ stream bs) := by
  have hw : wire (l ++ stream bs) = raise { wire l with current := some (bs.map .sendShortCmd) } := by
    rw [stream, ← List.append_assoc, wire_append, wire_stream hl.2]
    rfl
  have hsound : Sound request { wire l with current := some (bs.map .sendShortCmd) } :=
    ⟨hl.1.closed, hl.1.stray⟩
  unfold Now
  rw [hw]
  refine hsound.raise fun x hx ↦ .inr ?_
  cases hx
  rw [bytes_stream]
  exact hc

/-- No part of the window does any harm to those before it. -/
theorem sound_stream (hc : Command request (bs.map .sendShortCmd) bs) (hl : Now request Ready l)
    (hv : v <+: stream bs) : Sound request (wire (l ++ v)) := by
  rcases List.prefix_concat_iff.mp hv with rfl | hv
  · exact (now_stream hc hl).1
  · cases v with
    | nil =>
      rw [List.append_nil]
      exact hl.1
    | cons op v =>
      obtain ⟨rfl, htail⟩ := List.cons_prefix_cons.mp hv
      obtain ⟨k, rfl⟩ : ∃ k, v = (bs.take k).map .sendShortCmd :=
        ⟨v.length, by rw [List.map_take]; exact List.prefix_iff_eq_take.mp htail⟩
      rw [wire_stream hl.2]
      exact ⟨hl.1.closed, hl.1.stray⟩

theorem writeOps_eq (buf : ℤ → Byte) (n : ℕ) :
    writeOps buf n = stream (0x7A :: (List.range n).map fun i : ℕ ↦ buf i) := by
  simp only [writeOps, writeHead, stream, List.map_cons, List.map_map, List.cons_append,
    List.nil_append]
  rfl

theorem readOps_eq (n : ℕ) : readOps n = stream (0x3A :: List.replicate n 0xFF) := by
  simp only [readOps, readHead, stream, List.map_cons, List.map_replicate, List.cons_append,
    List.nil_append]

theorem wired_writeBuf {buf : ℤ → Byte} {n : Word} (hn : n.toNat ≤ 32767) :
    Wired D ev (some n.toNat) Ready (enc28j60WriteBuf buf n) Idle := by
  intro d s l hl
  have hc : Command (some n.toNat)
      ((0x7A :: (List.range n.toNat).map fun i : ℕ ↦ buf i).map Io.sendShortCmd) _ :=
    .writeBuf (by rw [List.length_map, List.length_range])
  refine Machine.dwp_mono (does_writeBuf (fun h ↦ False.elim h) fun op u s hu ↦ ?_)
    fun _ d' s' h ↦ ?_
  · rw [List.append_assoc]
    rw [writeOps_eq] at hu
    exact sound_stream hc hl (hu hn)
  · rw [h.2.2, writeOps_eq]
    exact now_stream hc hl

theorem wired_readBuf {buf : ℕ → Byte} {n : Word} :
    Wired D ev (some n.toNat) Ready (enc28j60ReadBuf buf n) Idle := by
  intro d s l hl
  have hc : Command (some n.toNat) ((0x3A :: List.replicate n.toNat 0xFF).map Io.sendShortCmd)
      (0x3A :: List.replicate n.toNat 0xFF) := by
    rw [List.map_cons, List.map_replicate]
    exact .readBuf rfl
  refine Machine.dwp_mono (does_readBuf fun op u s hu ↦ ?_) fun _ d' s' h ↦ ?_
  · rw [List.append_assoc]
    rw [readOps_eq] at hu
    exact sound_stream hc hl hu
  · rw [h.2.2, readOps_eq]
    exact now_stream hc hl

end Streams

/-- How many bytes of the buffer memory a call asks for. -/
def request : Call → Option ℕ
  | .writeBuf _ n => some n.toNat
  | .readBuf _ n => some n.toNat
  | _ => none

/-- The counter of the write loop can hold the length. -/
def Fits : Call → Prop
  | .writeBuf _ n => n.toNat ≤ 32767
  | _ => True

section Calls

variable {C E : Type} {D : Device C} {ev : E → C → C}

theorem wired_call (k : Call) (hk : Fits k) : Wired D ev (request k) Idle k.run Idle := by
  have hidle {m : Drv Unit} (h : Wired D ev (request k) Ready m Idle) :
      Wired D ev (request k) Idle m Idle := h.mono (fun _ ↦ Idle.ready) fun _ hc ↦ hc
  cases k with
  | softReset => exact hidle wired_softReset
  | bankChanging b => exact hidle (wired_bankChanging b)
  | writeReg r v hr => exact hidle (wired_writeReg hr v)
  | readReg r hr => exact hidle ((wired_readReg hr).bind fun _ ↦ wired_pure _)
  | bitfieldSet r m hr => exact wired_bitfieldSet hr m
  | bitfieldClear r m hr => exact wired_bitfieldClear hr m
  | writeBuf buf n => exact hidle (wired_writeBuf hk)
  | readBuf buf n => exact hidle (wired_readBuf.bind fun _ ↦ wired_pure _)

/-- Whatever the chip answers and however long it is busy: at every time each window closed so
far is empty or one complete command, nothing has been sent outside of the windows, and once
the call has returned no window is open. -/
theorem windows_wellFormed (D : Device C) (ev : E → C → C) (k : Call) (hk : Fits k) (d : Enc28j60T)
    (s : Bus C) (σ : ℕ → List E) (n : ℕ) :
    Sound (request k) (wire ((Port.machine D ev).trace σ (k.run.run d) s n)) ∧
    ∀ r s', (Port.machine D ev).run σ n (k.run.run d, s) = (.done r, s') →
      (wire ((Port.machine D ev).trace σ (k.run.run d) s n)).current = none := by
  have hstart : Sound (request k) (wire []) := ⟨nofun, rfl⟩
  have hcall : (watchedBus D ev).dwp _ False k.run _ d (s, []) := wired_call k hk d s [] ⟨hstart, rfl⟩
  refine ⟨?_, fun r s' hr ↦ (Machine.traced_done hcall hr).2⟩
  have hall := Machine.traced_invariant (σ := σ) (I := fun l ↦ Sound (request k) (wire l)) hstart
    hcall (fun _ _ _ h ↦ h) n
  rwa [List.nil_append] at hall

theorem windows_wellFormed_two : Fits (.writeBuf (fun _ ↦ 0) 2) ∧
    Sound (some 2) (wire ((Port.machine (chip specimen) (Event.act specimen)).trace (fun _ ↦ [])
      ((enc28j60WriteBuf (fun _ ↦ 0) 2).run ⟨.common, ⟨0, 0, 0⟩, 0, 0⟩) ⟨.high, blank⟩ 9)) := by
  have hk : Fits (.writeBuf (fun _ ↦ 0) 2) := show (2 : Word).toNat ≤ 32767 by decide
  exact ⟨hk, (windows_wellFormed (chip specimen) (Event.act specimen) _ hk _ _ _ 9).1⟩

end Calls

end Enc28j60.SpiWindows
