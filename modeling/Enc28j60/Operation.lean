import Enc28j60.Boot

namespace Enc28j60.Operation

open Interaction RegisterMap SpiSlave Port LowLayer Interface Access Banking DataSheet Transfers
open Quiet Boot

/-- The cells of the pointers into the buffer, as far as a write only stores there. -/
def pointerCells : List Cell :=
  [ERDPTL.cell 0, ERDPTL.cell 1, EWRPTL.cell 0, EWRPTL.cell 1, ETXSTL.cell 0, ETXSTL.cell 1,
   ETXNDL.cell 0, ETXNDL.cell 1, ERXRDPTL.cell 0]

/-- What a run is watched for besides the discipline: at every access, at the start of a
transmission, at each byte copied out of the buffer, and when `ERXRDPT` takes effect. -/
structure Watch where
  always : Chip → Prop
  start : Chip → Prop
  copy : Chip → Prop
  release : Byte → Chip → Prop
  setReg : ∀ x ∈ pointerCells, ∀ b c, always c → always (c.setReg x b)

def Watch.guard (w : Watch) : Guard Chip where
  read cmd c := plain.read cmd c ∧ w.always c
  write cmd b c := plain.write cmd b c ∧ w.always c ∧
    (cmd.reg = ECON1 → b.getLsbD 3 = true → w.start c) ∧
    (cmd.reg = ERXRDPTL → cmd.off = 1 → w.release b c)
  short win b c := plain.short win b c ∧ w.always c ∧ (win = .opcode → b ≠ 0xFF) ∧
    (win = .readBuf → w.copy c)

variable {E α : Type} {ev : E → Chip → Chip} {w : Watch} {tot : Prop} {si : Silicon}
  {c c' : Chip} {d : Enc28j60T} {P Q R F : Chip → Prop} {reg : RegT}

/-- The chip at work under a watch. -/
abbrev station (w : Watch) (ev : E → Chip → Chip) (tot : Prop) (si : Silicon) : Setting Chip E :=
  ⟨chip si, ev, w.guard, tot⟩

/-- Each event of the environment is one of the chip's own. -/
def Acts (si : Silicon) (ev : E → Chip → Chip) : Prop := ∀ e, ∃ e' : Event, ev e = e'.act si

theorem acts_act : Acts si (Event.act si) := fun e ↦ ⟨e, rfl⟩

theorem acts_still : Acts si (PhyWrites.still : Empty → Chip → Chip) := nofun

theorem lawful_station (hev : Acts si ev) : Lawful (station w ev tot si) := by
  refine lawful fun e c ↦ ?_
  obtain ⟨e', he⟩ := hev e
  rw [he]
  exact e'.bsel

section Bank

/-- `c` with another bank selected, and another record of the last read of `ECON1`. -/
def reseat (c : Chip) (b : BitVec 2) (seen : Byte) : Chip :=
  { c with
    regs := Function.update c.regs (ECON1.cell 0) (c.econ1 &&& 0xFC ||| b.setWidth 8)
    econ1Seen := seen }

theorem mask_bank : ∀ v : Byte, v &&& 0xFC ||| (v.setWidth 2).setWidth 8 = v := by decide

theorem bsel_set_mask (b : BankT) : ∀ v : Byte,
    Econ1Reg.bsel.set b.toNat v = v &&& 0xFC ||| b.bits.setWidth 8 ∧
      (v.getLsbD 3 = false → (Econ1Reg.bsel.set b.toNat v).getLsbD 3 = false) := by
  cases b <;> decide

theorem reseat_self (c : Chip) (seen : Byte) :
    reseat c (c.econ1.setWidth 2) seen = { c with econ1Seen := seen } := by
  rw [reseat, mask_bank, Chip.econ1, Function.update_eq_self]

theorem econ1_reseat (b : BitVec 2) (seen : Byte) :
    (reseat c b seen).econ1 = (c.econ1 &&& 0xFC ||| b.setWidth 8) := by
  simp only [Chip.econ1, reseat, Function.update_self]

theorem regs_reseat {x : Cell} (h : x ≠ ECON1.cell 0) (b : BitVec 2) (seen : Byte) :
    (reseat c b seen).regs x = c.regs x := Function.update_of_ne h _ _

theorem txrts_mask : ∀ (v : Byte) (b : BitVec 2),
    (v &&& 0xFC ||| b.setWidth 8).getLsbD 3 = v.getLsbD 3 ∧
      (v &&& 0xFC ||| b.setWidth 8).getLsbD 2 = v.getLsbD 2 ∧
      (v &&& 0xFC ||| b.setWidth 8) &&& 0xFC = v &&& 0xFC := by decide

theorem txrts_reseat (b : BitVec 2) (seen : Byte) : (reseat c b seen).txrts = c.txrts := by
  rw [Chip.txrts, econ1_reseat, (txrts_mask _ _).1, Chip.txrts]

/-- What the driver can start an access from: nothing is being sent, it makes no difference
which bank is selected, and the watch is content. -/
structure Workable (w : Watch) (ev : E → Chip → Chip) (P : Chip → Prop) : Prop where
  keeps : ∀ e c, P c → P (ev e c)
  idle : ∀ c, P c → c.txrts = false
  reseat : ∀ c b seen, P c → P (reseat c b seen)
  watched : ∀ c, P c → w.always c

theorem Workable.stable (h : Workable w ev P) : (station w ev tot si).Stable P := h.keeps

theorem Workable.seen (h : Workable w ev P) (hc : P c) (seen : Byte) : P { c with econ1Seen := seen } := by
  rw [← reseat_self]
  exact h.reseat _ _ _ hc

theorem Workable.read (h : Workable w ev P) (hc : P c) {r : RegT} {off : Byte} (ha : Addressed r off)
    (hr : Reaches ⟨.readControlRegister, r, off⟩ c) : w.guard.read ⟨.readControlRegister, r, off⟩ c :=
  ⟨⟨rfl, ha, hr⟩, h.watched c hc⟩

theorem Workable.readEcon1 (h : Workable w ev P) (hc : P c) :
    w.guard.read ⟨.readControlRegister, ECON1, 0⟩ c := h.read hc econ1_addressed (reaches_econ1 _ _)

/-- A write to a register other than `ECON1`. -/
theorem Workable.write (h : Workable w ev P) (hc : P c) {r : RegT} {off b : Byte} (ha : Addressed r off)
    (hsel : Selected (chip si) r c) (hn : r ≠ ECON1) (hr : r = ERXRDPTL → off = 1 → w.release b c) :
    w.guard.write ⟨.writeControlRegister, r, off⟩ b c := by
  refine ⟨⟨rfl, ha, reaches_of_selected ha hsel, h.idle c hc, fun he ↦ ?_⟩, h.watched c hc,
    fun he ↦ absurd he hn, hr⟩
  obtain ⟨hm, ht, rfl | ⟨rfl, hl⟩⟩ := ha
  · exact absurd ((registerMap_econ1 r hm ht).1.mp he) hn
  · exact absurd he ((registerMap_econ1 r hm ht).2 hl)

theorem readCell_idle (h : c.txrts = false) :
    c.readCell si (ECON1.cell 0) = (c.econ1, { c with econ1Seen := c.econ1 }) := by
  simp only [Chip.readCell, if_true, Chip.readEcon1, h, Bool.false_eq_true, if_false]

/-- The chip's own events leave `ECON1` alone while nothing is being sent. -/
theorem event_idle (e : Event) (h : c.txrts = false) :
    (e.act si c).econ1 = c.econ1 ∧ (e.act si c).econ1Seen = c.econ1Seen := by
  cases e with
  | arrive f =>
    simp only [Event.act]
    refine ⟨congrFun (c.arrive_regs f) _, ?_⟩
    unfold Chip.arrive
    split <;> rfl
  | txDone => simp only [Event.act, h, Bool.false_eq_true, if_false, and_self]

theorem sent_arrive (f : Frame) : (c.arrive f).sent = c.sent := by
  unfold Chip.arrive
  split <;> rfl

theorem stored_arrive (f : Frame) : (c.arrive f).stored = c.stored := by
  unfold Chip.arrive
  split <;> rfl

/-- `ECON1` was just read, and the value read is still what it holds. -/
def Seen (P : Chip → Prop) (v : Byte) (c : Chip) : Prop :=
  P c ∧ c.econ1 = v ∧ c.econ1Seen = v

theorem Workable.stable_seen (h : Workable w ev P) (hev : Acts si ev) (v : Byte) :
    (station w ev tot si).Stable (Seen P v) := by
  intro e c hc
  obtain ⟨hp, rfl, hs⟩ := hc
  obtain ⟨e', he⟩ := hev e
  have hidle : (e'.act si c).econ1 = c.econ1 ∧ _ := event_idle e' (h.idle c hp)
  rw [← he, hs] at hidle
  exact ⟨h.keeps e c hp, hidle⟩

theorem Workable.read_seen (h : Workable w ev P) (hc : P c) :
    Seen P c.econ1 (c.readCell si (ECON1.cell 0)).2 := by
  rw [readCell_idle (h.idle c hc)]
  exact ⟨h.seen hc _, rfl, rfl⟩

theorem bankable (hev : Acts si ev) (h : Workable w ev P) : Bankable (station w ev tot si) P := by
  refine ⟨h.stable, fun c hc ↦ ⟨h.readEcon1 hc, Seen P c.econ1, h.stable_seen hev _, h.read_seen hc, ?_⟩⟩
  intro b c' hc'
  obtain ⟨hp, he, hs⟩ := hc'
  have hidle : c.econ1.getLsbD 3 = false := h.idle c hc
  have hv : ((chip si).readCell (ECON1.cell 0) c).1 = c.econ1 :=
    congrArg Prod.fst (readCell_idle (h.idle c hc))
  obtain ⟨hmask, hbit⟩ := bsel_set_mask b c.econ1
  have hwrite : c'.writeCell si (ECON1.cell 0) (c.econ1 &&& 0xFC ||| b.bits.setWidth 8) =
      reseat c' b.bits c'.econ1Seen := by
    have hnot : ((c.econ1 &&& 0xFC ||| b.bits.setWidth 8).getLsbD 3 = true ∧
        ¬c'.txrts = true) = False := by
      rw [(txrts_mask _ _).1, hidle]
      simp only [Bool.false_eq_true, false_and]
    simp only [Chip.writeCell, if_true, Chip.writeEcon1, hnot, if_false, reseat, he]
    rfl
  refine ⟨⟨⟨rfl, econ1_addressed, reaches_econ1 _ _, h.idle _ hp, fun _ ↦ ?_⟩, h.watched _ hp,
    fun _ hb ↦ ?_, fun hr ↦ absurd hr (by decide)⟩, ?_⟩
  · rw [hs]
    exact hidle
  · change (Econ1Reg.bsel.set b.toNat ((chip si).readCell (ECON1.cell 0) c).1).getLsbD 3 = true at hb
    rw [hv, hbit hidle] at hb
    cases hb
  · change P (c'.writeCell si (ECON1.cell 0)
      (Econ1Reg.bsel.set b.toNat ((chip si).readCell (ECON1.cell 0) c).1))
    rw [hv, hmask, hwrite]
    exact h.reseat _ _ _ hp

end Bank

section Images

/-- What `f` makes of the chips that satisfy `P`. -/
def Image (f : Chip → Chip) (P : Chip → Prop) (c : Chip) : Prop := ∃ x, P x ∧ c = f x

variable {x : Cell}

theorem pointerCells_plain : ∀ x ∈ pointerCells, x ∉ [ECON1.cell 0, ECON2.cell 0, ERXRDPTL.cell 1,
    ERXSTL.cell 0, ERXSTL.cell 1, ERXNDL.cell 0, ERXNDL.cell 1, MIWRL.cell 1, MICMD.cell 0] := by
  simp only [pointerCells, List.forall_mem_cons]
  refine ⟨?_, ?_, ?_, ?_, ?_, ?_, ?_, ?_, ?_, nofun⟩
  all_goals decide

theorem pointerCells_econ1 (hx : x ∈ pointerCells) : x ≠ ECON1.cell 0 := by
  intro he
  refine pointerCells_plain x hx ?_
  rw [he]
  exact List.mem_cons_self

theorem ptr_setReg {r : RegT} (h₀ : x ≠ r.cell 0) (h₁ : x ≠ r.cell 1) (b : Byte) :
    (c.setReg x b).ptr r = c.ptr r := by
  rw [Chip.ptr, regs_setReg, regs_setReg, if_neg h₀.symm, if_neg h₁.symm, Chip.ptr]

/-- A frame arrives in the same way whatever the other pointers hold. -/
theorem arrive_setReg (hx : x ∈ pointerCells) (b : Byte) (f : Frame) :
    (c.setReg x b).arrive f = (c.arrive f).setReg x b := by
  have hplain := pointerCells_plain x hx
  simp only [List.mem_cons, List.not_mem_nil, or_false, not_or] at hplain
  obtain ⟨h₁, -, -, h₂, h₃, h₄, h₅, -, -⟩ := hplain
  have hrx : (c.setReg x b).rxen = c.rxen := by
    rw [Chip.rxen, Chip.econ1_setReg_of_ne h₁, Chip.rxen]
  have hst : (c.setReg x b).ptr ERXSTL = c.ptr ERXSTL := ptr_setReg h₂ h₃ b
  have hnd : (c.setReg x b).ptr ERXNDL = c.ptr ERXNDL := ptr_setReg h₄ h₅ b
  have hsize : (c.setReg x b).ringSize = c.ringSize := by rw [Chip.ringSize, hst, hnd, Chip.ringSize]
  have haddr : (c.setReg x b).ringAddr = c.ringAddr := by
    funext p
    rw [Chip.ringAddr, hst, hsize, Chip.ringAddr]
  have hpos : (c.setReg x b).ringPos = c.ringPos := by
    funext a
    rw [Chip.ringPos, hst, Chip.ringPos]
  have hfree : (c.setReg x b).free = c.free := by
    rw [Chip.free, hpos, hsize, Chip.free]
    rfl
  unfold Chip.arrive
  rw [hrx, haddr, hpos, hfree]
  simp only [apply_ite (fun c : Chip ↦ c.setReg x b)]
  rfl

theorem event_setReg (hx : x ∈ pointerCells) (b : Byte) (e : Event) (h : c.txrts = false) :
    e.act si (c.setReg x b) = (e.act si c).setReg x b := by
  cases e with
  | arrive f => exact arrive_setReg hx b f
  | txDone =>
    have htx : (c.setReg x b).txrts = false := by
      rw [Chip.txrts, Chip.econ1_setReg_of_ne (pointerCells_econ1 hx)]
      exact h
    simp only [Event.act, h, htx, Bool.false_eq_true, if_false]

theorem reseat_setReg (hx : x ≠ ECON1.cell 0) (v : Byte) (b : BitVec 2) (seen : Byte) :
    reseat (c.setReg x v) b seen = (reseat c b seen).setReg x v := by
  rw [reseat, Chip.econ1_setReg_of_ne hx]
  simp only [reseat, Chip.setReg, Function.update_comm hx]

theorem Workable.setReg (h : Workable w ev P) (hev : Acts si ev) (hx : x ∈ pointerCells) (b : Byte) :
    Workable w ev (Image (fun c ↦ c.setReg x b) P) := by
  refine ⟨?_, ?_, ?_, ?_⟩
  · rintro e - ⟨c, hc, rfl⟩
    obtain ⟨e', he⟩ := hev e
    refine ⟨ev e c, h.keeps e c hc, ?_⟩
    rw [he]
    exact event_setReg hx b e' (h.idle c hc)
  · rintro - ⟨c, hc, rfl⟩
    rw [Chip.txrts, Chip.econ1_setReg_of_ne (pointerCells_econ1 hx)]
    exact h.idle c hc
  · rintro - b' seen ⟨c, hc, rfl⟩
    exact ⟨Operation.reseat c b' seen, h.reseat c b' seen hc, reseat_setReg (pointerCells_econ1 hx) _ _ _⟩
  · rintro - ⟨c, hc, rfl⟩
    exact w.setReg x hx b c (h.watched c hc)

/-- Both bytes of a register are stored. -/
def put (r : RegT) (v : Word) (c : Chip) : Chip :=
  (c.setReg (r.cell 0) (v.setWidth 8)).setReg (r.cell 1) ((v >>> 8).setWidth 8)

theorem image_image {f g : Chip → Chip} : Image g (Image f P) = Image (fun c ↦ g (f c)) P := by
  funext c
  refine propext ⟨?_, ?_⟩
  · rintro ⟨-, ⟨x, hx, rfl⟩, rfl⟩
    exact ⟨x, hx, rfl⟩
  · rintro ⟨x, hx, rfl⟩
    exact ⟨_, ⟨x, hx, rfl⟩, rfl⟩

end Images

section Registers

/-- The registers that point into the buffer and only hold a value. -/
def Pointer (r : RegT) : Prop := r ∈ [ERDPTL, EWRPTL, ETXSTL, ETXNDL]

instance : DecidablePred Pointer := fun r ↦ inferInstanceAs (Decidable (r ∈ [ERDPTL, EWRPTL, ETXSTL, ETXNDL]))

theorem pointer_map (h : Pointer reg) : reg ∈ registerMap ∧ reg.type ≠ .phyR ∧ reg.length = 2 ∧
    reg ≠ ECON1 ∧ reg ≠ ERXRDPTL := by
  simp only [Pointer, List.mem_cons, List.not_mem_nil, or_false] at h
  rcases h with rfl | rfl | rfl | rfl <;> decide

theorem pointer_cells (h : Pointer reg) : reg.cell 0 ∈ pointerCells ∧ reg.cell 1 ∈ pointerCells := by
  simp only [Pointer, List.mem_cons, List.not_mem_nil, or_false] at h
  rcases h with rfl | rfl | rfl | rfl <;> decide

theorem Workable.put (h : Workable w ev P) (hev : Acts si ev) (hr : Pointer reg) (v : Word) :
    Workable w ev (Image (put reg v) P) := by
  have h₁ := (h.setReg hev (pointer_cells hr).1 (v.setWidth 8)).setReg hev (pointer_cells hr).2
    ((v >>> 8).setWidth 8)
  rwa [image_image] at h₁

/-- A pointer is written, low byte first. -/
theorem spec_place (hev : Acts si ev) (hr : Pointer reg) (v : Word) (hP : Workable w ev P) :
    (station w ev tot si).Spec (At (station w ev tot si) d P) (enc28j60WriteReg reg v)
      fun _ ↦ At (station w ev tot si) (touch reg d) (Image (put reg v) P) := by
  obtain ⟨hm, ht, hl, hne, hnr⟩ := pointer_map hr
  have hlow := hP.setReg hev (pointer_cells hr).1 (v.setWidth 8)
  refine (lawful_station hev).spec_writeReg hm ht (bankable hev hP).opens
    (R := Image (fun c ↦ c.setReg (reg.cell 0) (v.setWidth 8)) P) hlow.stable (hP.put hev hr v).stable
    (fun he ↦ absurd he hne) (fun c hc hsel ↦ ⟨?_, c, hc, ?_⟩) (fun hn ↦ absurd hl hn)
    fun _ c hc hsel ↦ ⟨?_, ?_⟩
  · exact hP.write hc ⟨hm, ht, .inl rfl⟩ hsel hne fun he ↦ absurd he hnr
  · exact writeCell_plain (pointerCells_plain _ (pointer_cells hr).1) _
  · exact hlow.write hc ⟨hm, ht, .inr ⟨rfl, hl⟩⟩ hsel hne fun he ↦ absurd he hnr
  · obtain ⟨x, hx, rfl⟩ := hc
    exact ⟨x, hx, writeCell_plain (pointerCells_plain _ (pointer_cells hr).2) _⟩

/-- A register of one byte is read. -/
theorem spec_readOne (hev : Acts si ev) (hm : reg ∈ registerMap) (ht : reg.type ≠ .phyR)
    (hl : reg.length ≠ 2) (hP : Opens (station w ev tot si) reg P) {V : Byte → Chip → Prop}
    (hV : ∀ b, (station w ev tot si).Stable (V b))
    (h : ∀ c, P c → Selected (chip si) reg c → w.guard.read ⟨.readControlRegister, reg, 0⟩ c ∧
      V (c.readCell si (reg.cell 0)).1 (c.readCell si (reg.cell 0)).2) :
    (station w ev tot si).Spec (At (station w ev tot si) d P) (enc28j60ReadReg reg)
      fun v ↦ At (station w ev tot si) (touch reg d) fun c ↦ ∃ b : Byte, v = b.setWidth 16 ∧ V b c := by
  refine (lawful_station hev).spec_readReg hm ht hP (R := V)
    (Q := fun v c ↦ ∃ b : Byte, v = b.setWidth 16 ∧ V b c) hV ?_ h
    (fun _ b c hc ↦ ⟨b, rfl, hc⟩) fun hn ↦ absurd hn hl
  intro v e c hc
  obtain ⟨b, hb, hc⟩ := hc
  exact ⟨b, hb, hV b e c hc⟩

/-- The packet count is read, and the read is noted. -/
theorem spec_count (hev : Acts si ev) (hP : Workable w ev P) {V : Byte → Chip → Prop}
    (hV : ∀ b, Workable w ev (V b))
    (h : ∀ c, P c → V c.epktcnt { c with pktcntSeen := c.pktcntSeen ++ [c.epktcnt] }) :
    (station w ev tot si).Spec (At (station w ev tot si) d P) (enc28j60ReadReg EPKTCNT)
      fun v ↦ At (station w ev tot si) (touch EPKTCNT d) fun c ↦
        ∃ b : Byte, v = b.setWidth 16 ∧ V b c := by
  refine spec_readOne hev (by decide) (by decide) (by decide) (bankable hev hP).opens
    (fun b ↦ (hV b).stable) fun c hc hsel ↦ ⟨?_, h c hc⟩
  have ha : Addressed EPKTCNT 0 := ⟨by decide, by decide, .inl rfl⟩
  exact hP.read hc ha (reaches_of_selected ha hsel)

/-- The chip once `ERXRDPT` has taken effect. -/
def release (v : Word) (c : Chip) : Chip := { put ERXRDPTL v c with erxrdpt := v }

theorem spec_release (hev : Acts si ev) (v : Word) (hP : Workable w ev P)
    (hQ : (station w ev tot si).Stable Q)
    (h : ∀ c, P c → w.release ((v >>> 8).setWidth 8) (c.setReg (ERXRDPTL.cell 0) (v.setWidth 8)) ∧
      Q (release v c)) :
    (station w ev tot si).Spec (At (station w ev tot si) d P) (enc28j60WriteReg ERXRDPTL v)
      fun _ ↦ At (station w ev tot si) (touch ERXRDPTL d) Q := by
  have hlow := hP.setReg hev (show ERXRDPTL.cell 0 ∈ pointerCells by decide) (v.setWidth 8)
  refine (lawful_station hev).spec_writeReg (by decide) (by decide) (bankable hev hP).opens
    (R := Image (fun c ↦ c.setReg (ERXRDPTL.cell 0) (v.setWidth 8)) P) hlow.stable hQ
    (fun he ↦ absurd he (by decide)) (fun c hc hsel ↦ ⟨?_, c, hc, ?_⟩)
    (fun hn ↦ absurd rfl hn) fun _ c hc hsel ↦ ⟨?_, ?_⟩
  · exact hP.write hc ⟨by decide, by decide, .inl rfl⟩ hsel (by decide) fun _ ho ↦ absurd ho (by decide)
  · have hw : c.writeCell si (ERXRDPTL.cell 0) (v.setWidth 8) = _ := writeCell_plain (by decide) _
    exact hw
  · obtain ⟨x, hx, rfl⟩ := hc
    exact hlow.write ⟨x, hx, rfl⟩ ⟨by decide, by decide, .inr ⟨rfl, rfl⟩⟩ hsel (by decide)
      fun _ _ ↦ (h x hx).1
  · obtain ⟨x, hx, rfl⟩ := hc
    have hreg : (x.setReg (ERXRDPTL.cell 0) (v.setWidth 8)).regs (ERXRDPTL.cell 0) = v.setWidth 8 := by
      rw [regs_setReg, if_pos rfl]
    have hv : word ((v >>> 8).setWidth 8)
        ((x.setReg (ERXRDPTL.cell 0) (v.setWidth 8)).regs (ERXRDPTL.cell 0)) = v := by
      rw [hreg, word_bytes]
    have hw : (x.setReg (ERXRDPTL.cell 0) (v.setWidth 8)).writeCell si (ERXRDPTL.cell 1)
        ((v >>> 8).setWidth 8) = release v x :=
      congrArg (fun e : Word ↦ ({ put ERXRDPTL v x with erxrdpt := e } : Chip)) hv
    change Q ((x.setReg (ERXRDPTL.cell 0) (v.setWidth 8)).writeCell si (ERXRDPTL.cell 1)
      ((v >>> 8).setWidth 8))
    rw [hw]
    exact (h x hx).2

theorem pktdec_set : (Econ2Reg.pktdec.set 1 (((0x80 : Byte).setWidth 16 : Word).setWidth 8 : Byte)).setWidth 16 =
    (0xC0 : Word) := by decide

/-- `PKTDEC` is raised in the value `ECON2` holds, and the packet count falls by one. -/
theorem spec_pktdec (hev : Acts si ev) (hP : Workable w ev P) (hQ : (station w ev tot si).Stable Q)
    (h : ∀ c, P c → c.econ2 = 0x80 ∧ Q { c with epktcnt := c.epktcnt - 1 }) :
    (station w ev tot si).Spec (At (station w ev tot si) d P)
      (enc28j60ReadReg ECON2 >>= fun regData ↦ enc28j60WriteReg ECON2
        ((Econ2Reg.pktdec.set 1 (regData.setWidth 8 : Byte)).setWidth 16))
      fun _ ↦ At (station w ev tot si) d Q := by
  have ha : Addressed ECON2 0 := ⟨by decide, by decide, .inl rfl⟩
  have hread : (station w ev tot si).Spec _ _ _ := spec_readOne (d := d)
    (V := fun b c ↦ b = 0x80 ∧ P c) hev (show ECON2 ∈ registerMap by decide) (by decide) (by decide)
    (opens_common rfl hP.stable) (fun b e c hc ↦ ⟨hc.1, hP.keeps e c hc.2⟩) fun c hc hsel ↦ ?_
  · refine hread.bind fun v ↦ spec_at_exists fun b ↦ spec_at_pure fun hv ↦ spec_at_pure fun hb ↦ ?_
    subst hv
    subst hb
    rw [pktdec_set]
    refine (lawful_station hev).spec_writeReg (R := Q) (show ECON2 ∈ registerMap by decide)
      (by decide) (opens_common rfl hP.stable) hQ hQ (fun he ↦ absurd he (by decide))
      (fun c hc hsel ↦ ⟨?_, ?_⟩) (fun _ _ hc ↦ hc) fun hl ↦ absurd hl (by decide)
    · exact hP.write hc ha hsel (by decide) fun he ↦ absurd he (by decide)
    · have hw : c.writeCell si (ECON2.cell 0) 0xC0 = { c with epktcnt := c.epktcnt - 1 } := by
        have hregs : Function.update c.regs (ECON2.cell 0) 0x80 = c.regs := by
          rw [← (h c hc).1]
          exact Function.update_eq_self _ _
        change { c.setReg (ECON2.cell 0) 0x80 with epktcnt := c.epktcnt - 1 } = _
        rw [Chip.setReg, hregs]
      change Q (c.writeCell si (ECON2.cell 0) 0xC0)
      rw [hw]
      exact (h c hc).2
  · exact ⟨hP.read hc ha (reaches_of_selected ha hsel), (h c hc).1, hc⟩

end Registers

section Sending

theorem txrts_get {n : ℕ} (v : BitVec n) : Econ1Reg.txrts.get v = (v.getLsbD 3).toNat := by
  have h : Econ1Reg.txrts.get v = v.toNat / 8 % 2 :=
    congrArg (· % 2) (Nat.shiftRight_eq_div_pow v.toNat 3)
  rw [h, BitVec.getLsbD, Nat.testBit_eq_decide_div_mod_eq]
  rcases Nat.mod_two_eq_zero_or_one (v.toNat / 8) with h | h <;> simp [h]

theorem getLsbD_low (b : Byte) : (b.setWidth 16 : Word).getLsbD 3 = b.getLsbD 3 := by
  simp

/-- With nothing under way the wait loop is left at once. -/
theorem spec_waitIdle (hev : Acts si ev) (hP : Workable w ev P) :
    (station w ev tot si).Spec (At (station w ev tot si) d P) waitTxrts
      fun _ ↦ At (station w ev tot si) d P := by
  have hread : (station w ev tot si).Spec _ _ _ := spec_readOne (d := d)
    (V := fun b c ↦ b.getLsbD 3 = false ∧ P c) hev (show ECON1 ∈ registerMap by decide) (by decide)
    (by decide) (opens_common rfl hP.stable) (fun b e c hc ↦ ⟨hc.1, hP.keeps e c hc.2⟩) fun c hc _ ↦ ?_
  · refine spec_doWhile (J := fun _ ↦ At (station w ev tot si) d P) (fun _ ↦ hread.mono
      (fun _ _ h ↦ h) fun v d' c h ↦ ?_) 0
    obtain ⟨rfl, hcoh, b, rfl, hb, hp⟩ := h
    rw [txrts_get, getLsbD_low, hb]
    exact ⟨nofun, fun _ ↦ ⟨rfl, hcoh, hp⟩⟩
  · refine ⟨hP.readEcon1 hc, ?_⟩
    rw [readCell_idle (hP.idle c hc)]
    exact ⟨hP.idle c hc, hP.seen hc _⟩

/-- A transmission is under way that takes fewer than `n` more polls, or it is over. -/
def Flight (F Q : Chip → Prop) (n : ℕ) (c : Chip) : Prop :=
  (F c ∧ c.txrts = true ∧ c.txWait < n) ∨ Q c

/-- What is known of a chip that is sending, and of the same chip once it has sent. -/
structure Sends (w : Watch) (ev : E → Chip → Chip) (si : Silicon) (F Q : Chip → Prop) : Prop where
  arrive : ∀ c f, (∃ e, ev e = (Event.arrive f).act si) → F c → F (c.arrive f)
  poll : ∀ c n seen, F c → F { c with txWait := n, econ1Seen := seen }
  finish : ∀ c, F c → c.txrts = true → Q (c.finishTx si)
  watched : ∀ c, F c → w.always c
  sent : Workable w ev Q

theorem txWait_arrive (f : Frame) : (c.arrive f).txWait = c.txWait := by
  unfold Chip.arrive
  split <;> rfl

theorem Sends.stable (h : Sends w ev si F Q) (hev : Acts si ev) (n : ℕ) :
    (station w ev tot si).Stable (Flight F Q n) := by
  intro e c hc
  rcases hc with ⟨hf, htx, hn⟩ | hq
  · obtain ⟨e', he⟩ := hev e
    change Flight F Q n (ev e c)
    rw [he]
    cases e' with
    | arrive f =>
      have hecon1 : (c.arrive f).txrts = c.txrts :=
        congrArg (fun r : Cell → Byte ↦ (r (ECON1.cell 0)).getLsbD 3) (c.arrive_regs f)
      refine .inl ⟨h.arrive c f ⟨e, he⟩ hf, hecon1.trans htx, ?_⟩
      exact (txWait_arrive f).trans_lt hn
    | txDone =>
      refine .inr ?_
      simp only [Event.act, htx, if_true]
      exact h.finish c hf htx
  · exact .inr (h.sent.keeps e c hq)

/-- The wait loop is left when the transmission is over. -/
theorem spec_waitFlight (hev : Acts si ev) (h : Sends w ev si F Q) :
    (station w ev tot si).Spec (At (station w ev tot si) d fun c ↦ ∃ n, Flight F Q n c) waitTxrts
      fun _ ↦ At (station w ev tot si) d Q := by
  refine spec_at_exists fun n ↦ ?_
  let answer (n : ℕ) (b : Byte) (c : Chip) : Prop :=
    (b.getLsbD 3 = true → ∃ k < n, Flight F Q k c) ∧ (b.getLsbD 3 = false → Q c)
  have hanswer (n : ℕ) (b : Byte) : (station w ev tot si).Stable (answer n b) := by
    intro e c hc
    refine ⟨fun hb ↦ ?_, fun hb ↦ h.sent.keeps e c (hc.2 hb)⟩
    obtain ⟨k, hk, hf⟩ := hc.1 hb
    exact ⟨k, hk, h.stable hev k e c hf⟩
  have hread (n : ℕ) : (station w ev tot si).Spec _ _ _ := spec_readOne (d := d) (V := answer n) hev
    (show ECON1 ∈ registerMap by decide) (by decide) (by decide) (opens_common rfl (h.stable hev n))
    (hanswer n) fun c hc _ ↦ ?_
  · refine spec_doWhile (J := fun n ↦ At (station w ev tot si) d (Flight F Q n)) (fun n ↦
      (hread n).mono (fun _ _ h ↦ h) fun v d' c h ↦ ?_) n
    obtain ⟨rfl, hcoh, b, rfl, hmore, hdone⟩ := h
    rw [txrts_get, getLsbD_low]
    cases hb : b.getLsbD 3 with
    | false => exact ⟨fun h ↦ absurd h (by decide), fun _ ↦ ⟨rfl, hcoh, hdone hb⟩⟩
    | true =>
      obtain ⟨k, hk, hf⟩ := hmore hb
      exact ⟨fun _ ↦ ⟨k, fun _ ↦ hk, rfl, hcoh, hf⟩, fun h ↦ absurd h (by decide)⟩
  · rcases hc with ⟨hf, htx, hn⟩ | hq
    · refine ⟨⟨⟨rfl, econ1_addressed, reaches_econ1 _ _⟩, h.watched c hf⟩, ?_⟩
      have hr : c.readCell si (ECON1.cell 0) = c.readEcon1 si := rfl
      rw [hr, Chip.readEcon1, if_pos htx]
      cases hw : c.txWait with
      | zero =>
        have hq := h.finish c hf htx
        refine ⟨fun hb ↦ ?_, fun _ ↦ h.sent.seen hq _⟩
        exact Bool.noConfusion (hb.symm.trans (h.sent.idle _ hq))
      | succ k =>
        refine ⟨fun _ ↦ ⟨k + 1, by omega, .inl ⟨h.poll c _ _ hf, htx, Nat.lt_succ_self k⟩⟩, fun hb ↦ ?_⟩
        exact Bool.noConfusion (hb.symm.trans htx)
    · refine ⟨h.sent.readEcon1 hq, ?_⟩
      rw [readCell_idle (h.sent.idle c hq)]
      exact ⟨fun hb ↦ Bool.noConfusion ((h.sent.idle c hq).symm.trans hb), fun _ ↦ h.sent.seen hq _⟩

theorem txrts_set : ∀ v : Byte, (Econ1Reg.txrts.set 1 (v.setWidth 16 : Word)).setWidth 8 = v ||| 0x08 ∧
    (v ||| 0x08).setWidth 2 = v.setWidth 2 ∧ (v ||| 0x08).getLsbD 3 = true := by decide

/-- The transmission is started: what `ECON1` held is written back with `TXRTS` raised. -/
def launch (si : Silicon) (c : Chip) : Chip :=
  (c.setReg (ECON1.cell 0) (c.econ1 ||| 0x08)).startTx si

theorem txrts_launch : (launch si c).txrts = true := by
  have h : (launch si c).econ1 = c.econ1 ||| 0x08 := by
    simp only [Chip.econ1, launch, Chip.startTx, Chip.setReg, Function.update_self]
  rw [Chip.txrts, h, (txrts_set _).2.2]

theorem spec_start (hev : Acts si ev) (hP : Workable w ev P) (hF : Sends w ev si F Q)
    (h : ∀ c, P c → w.start c ∧ F (launch si c)) :
    (station w ev tot si).Spec (At (station w ev tot si) d P)
      (enc28j60ReadReg ECON1 >>= fun tmp ↦ enc28j60WriteReg ECON1 (Econ1Reg.txrts.set 1 tmp))
      fun _ ↦ At (station w ev tot si) d fun c ↦ ∃ n, Flight F Q n c := by
  have hst : (station w ev tot si).Stable fun c ↦ ∃ n, Flight F Q n c :=
    fun e c hc ↦ hc.imp fun n hn ↦ hF.stable hev n e c hn
  have hread : (station w ev tot si).Spec _ _ _ := spec_readOne (d := d) (V := Seen P) hev
    (show ECON1 ∈ registerMap by decide) (by decide) (by decide) (opens_common rfl hP.stable)
    (hP.stable_seen hev) fun c hc _ ↦ ?_
  · refine hread.bind fun tmp ↦ spec_at_exists fun b ↦ spec_at_pure fun hb ↦ ?_
    subst hb
    intro d' s hs' hat
    obtain ⟨rfl, hcoh, hp, he, hseen⟩ := hat
    -- the value read has the bits of the selected bank
    have hbank (hd : d'.bank ≠ .common) : b.setWidth 2 = d'.bank.bits := by
      rw [← he]
      exact hcoh.resolve_left hd
    refine (lawful_station hev).spec_writeReg (P := Seen P b) (R := fun c ↦ ∃ n, Flight F Q n c)
      (show ECON1 ∈ registerMap by decide) (by decide) (opens_common rfl (hP.stable_seen hev b)) hst hst
      (fun _ hd ↦ ?_) (fun c hc _ ↦ ?_) (fun _ _ hc ↦ hc) (fun hl ↦ absurd hl (by decide)) d' s hs'
      ⟨rfl, hcoh, hp, he, hseen⟩
    · rw [(txrts_set b).1, (txrts_set b).2.1, hbank hd]
    · obtain ⟨hp, he, hseen⟩ := hc
      have hidle : b.getLsbD 3 = false := by
        rw [← he]
        exact hP.idle c hp
      have hlaunch : c.writeCell si (ECON1.cell 0) (b ||| 0x08) = launch si c := by
        have hrise : ((b ||| 0x08).getLsbD 3 = true ∧ ¬c.txrts = true) = True := by
          rw [(txrts_set b).2.2, hP.idle c hp]
          simp only [Bool.false_eq_true, not_false_eq_true, and_self]
        simp only [Chip.writeCell, if_true, Chip.writeEcon1, hrise, launch, he]
      obtain ⟨hstart, hf⟩ := h c hp
      rw [(txrts_set b).1]
      refine ⟨⟨⟨rfl, econ1_addressed, reaches_econ1 _ _, hP.idle c hp, fun _ ↦ ?_⟩, hP.watched c hp,
        fun _ _ ↦ hstart, fun he ↦ absurd he (by decide)⟩, (launch si c).txWait + 1, ?_⟩
      · rw [hseen]
        exact hidle
      · change Flight F Q _ (c.writeCell si (ECON1.cell 0) (b ||| 0x08))
        rw [hlaunch]
        exact .inl ⟨hf, txrts_launch, Nat.lt_succ_self _⟩
  · refine ⟨hP.readEcon1 hc, ?_⟩
    have hv : (c.readCell si (ECON1.cell 0)).1 = c.econ1 := congrArg Prod.fst (readCell_idle (hP.idle c hc))
    rw [hv]
    exact hP.read_seen hc

end Sending

section Accesses

variable {s : Bus Chip} {b : Byte}

end Accesses

end Enc28j60.Operation
