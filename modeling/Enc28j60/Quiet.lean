import Enc28j60.DataSheet
import Enc28j60.Miim

namespace Enc28j60.Quiet

open Interaction RegisterMap SpiSlave Port LowLayer Access Banking DataSheet Transfers Miim
open CircularMemory

/-- The access meets the byte of the register it names. -/
def Reaches (cmd : Cmd) (c : Chip) : Prop :=
  cell (c.econ1.setWidth 2) (cmd.addr.setWidth 5) = cmd.reg.cell cmd.off

/-- How the driver is to treat the chip: each access reaches the register it names, nothing is
written while a transmission is under way, `ECON1` is only written after it was last seen with
`TXRTS` clear, and the buffer is only read and written with `AUTOINC` set. -/
def discipline : Guard Chip where
  read cmd c := Reaches cmd c
  write cmd _ c := Reaches cmd c ∧ c.txrts = false ∧
    (cmd.reg.cell cmd.off = ECON1.cell 0 → c.econ1Seen.getLsbD 3 = false)
  short w b c := (w = .opcode → b ≠ 0xFF → c.autoinc = true) ∧ (w = .writeBuf → c.txrts = false)

/-- The accesses the driver is made of: plain reads and writes of the registers of the map, the
buffer commands and the system reset. -/
def plain : Guard Chip where
  read cmd c := cmd.opcode = .readControlRegister ∧ Addressed cmd.reg cmd.off ∧ discipline.read cmd c
  write cmd b c := cmd.opcode = .writeControlRegister ∧ Addressed cmd.reg cmd.off ∧
    discipline.write cmd b c
  short w b c := discipline.short w b c ∧
    (w = .opcode ∧ (b = 0xFF ∨ b = 0x3A ∨ b = 0x7A) ∨ w = .readBuf ∨ w = .writeBuf)

/-- The initialisation starts no transmission. -/
def hush : Guard Chip where
  read := plain.read
  write cmd b c := plain.write cmd b c ∧ (cmd.reg = ECON1 → b.getLsbD 3 = false)
  short := plain.short

def bench (tot : Prop) (si : Silicon) : Setting Chip Event :=
  ⟨chip si, Event.act si, hush, tot⟩

theorem bench_lawful (tot : Prop) (si : Silicon) : Lawful (bench tot si) := lawful fun e _ ↦ e.bsel

/-- `c` with some bank selected, receive and transmit logic off, and the record of the last
read of `ECON1` adjusted. -/
def rebank (c : Chip) (b seen : BitVec 2) : Chip :=
  { c with
    regs := Function.update c.regs (ECON1.cell 0) (b.setWidth 8)
    econ1Seen := seen.setWidth 8 }

/-- The chip is quiet, and in the state `c₀` but for the bank. -/
def Same (c₀ c : Chip) : Prop := ∃ b seen, c = rebank c₀ b seen

variable {tot : Prop} {si : Silicon} {c c₀ : Chip} {b seen : BitVec 2} {d : Enc28j60T} {reg : RegT}

theorem econ1_rebank : (rebank c b seen).econ1 = b.setWidth 8 := by
  simp only [Chip.econ1, rebank, Function.update_self]

theorem setWidth_bit : ∀ b : BitVec 2, (b.setWidth 8).getLsbD 2 = false ∧
    (b.setWidth 8).getLsbD 3 = false ∧ (b.setWidth 8).setWidth 2 = b := by decide

theorem rxen_rebank : (rebank c b seen).rxen = false := by
  rw [Chip.rxen, econ1_rebank, (setWidth_bit b).1]

theorem txrts_rebank : (rebank c b seen).txrts = false := by
  rw [Chip.txrts, econ1_rebank, (setWidth_bit b).2.1]

theorem regs_rebank {x : Cell} (h : x ≠ ECON1.cell 0) : (rebank c b seen).regs x = c.regs x :=
  Function.update_of_ne h _ _

theorem peek_rebank {x : Cell} (h : x ≠ ECON1.cell 0) : (rebank c b seen).peek x = c.peek x := by
  unfold Chip.peek
  rw [regs_rebank h]
  rfl

theorem event_rebank (e : Event) : e.act si (rebank c b seen) = rebank c b seen := by
  cases e with
  | arrive f => simp only [Event.act, Chip.arrive, rxen_rebank, Bool.false_eq_true, false_and,
      if_false]
  | txDone => simp only [Event.act, txrts_rebank, Bool.false_eq_true, if_false]

theorem stable_same : (bench tot si).Stable (Same c₀) := by
  rintro e c ⟨b, seen, rfl⟩
  exact ⟨b, seen, event_rebank e⟩

theorem readCell_econ1 : (rebank c b seen).readCell si (ECON1.cell 0) =
    (b.setWidth 8, rebank c b b) := by
  simp only [Chip.readCell, if_true, Chip.readEcon1, txrts_rebank, Bool.false_eq_true, if_false,
    econ1_rebank]
  rfl

theorem writeCell_econ1 (b' : BitVec 2) :
    (rebank c b seen).writeCell si (ECON1.cell 0) (b'.setWidth 8) = rebank c b' seen := by
  simp only [Chip.writeCell, if_true, Chip.writeEcon1, (setWidth_bit b').2.1, Bool.false_eq_true,
    false_and, if_false, Chip.setReg, rebank, Function.update_idem]

theorem bsel_set_setWidth (bank : BankT) : ∀ v : BitVec 2,
    Econ1Reg.bsel.set bank.toNat (v.setWidth 8) = bank.bits.setWidth 8 := by
  cases bank <;> decide

theorem cell_econ1 : ∀ b : BitVec 2, cell b 0x1f = ECON1.cell 0 := by decide

theorem reaches_econ1 (o : OpcodeT) (c : Chip) : Reaches ⟨o, ECON1, 0⟩ c := cell_econ1 _

theorem bankable_same : Bankable (bench tot si) (Same c₀) := by
  refine ⟨stable_same, ?_⟩
  rintro c ⟨b, seen, rfl⟩
  refine ⟨⟨rfl, econ1_addressed, reaches_econ1 _ _⟩, fun c ↦ c = rebank c₀ b b, ?_, ?_, ?_⟩
  · rintro e c rfl
    exact event_rebank e
  · exact congrArg Prod.snd readCell_econ1
  · rintro bank c rfl
    have hv : ((bench tot si).device.readCell (ECON1.cell 0) (rebank c₀ b seen)).1 = b.setWidth 8 :=
      congrArg Prod.fst readCell_econ1
    rw [hv, bsel_set_setWidth]
    exact ⟨⟨⟨rfl, econ1_addressed, reaches_econ1 _ _, txrts_rebank, fun _ ↦ (setWidth_bit b).2.1⟩,
        fun _ ↦ (setWidth_bit bank.bits).2.1⟩,
      bank.bits, b, writeCell_econ1 bank.bits⟩

/-- A register whose reads only report what it holds. -/
def Readable (r : RegT) : Prop :=
  r ∈ registerMap ∧ r.type ≠ .phyR ∧ r ∉ [ECON1, ESTAT, MISTAT, EPKTCNT]

def Writable (r : RegT) : Prop := r ∈ registerMap ∧ r.type ≠ .phyR ∧ r ≠ ECON1

instance : DecidablePred Readable := fun _ ↦ inferInstanceAs (Decidable (_ ∧ _))

instance : DecidablePred Writable := fun _ ↦ inferInstanceAs (Decidable (_ ∧ _))

def fetch (r : RegT) (c : Chip) : Word :=
  if r.length = 2 then word (c.peek (r.cell 1)) (c.peek (r.cell 0))
  else (c.peek (r.cell 0)).setWidth 16

def place (si : Silicon) (r : RegT) (v : Word) (c : Chip) : Chip :=
  let c' := c.writeCell si (r.cell 0) (v.setWidth 8)
  if r.length = 2 then c'.writeCell si (r.cell 1) ((v >>> 8).setWidth 8) else c'

theorem readable_cell : ∀ r ∈ registerMap, r.type ≠ .phyR → r ∉ [ECON1, ESTAT, MISTAT, EPKTCNT] →
    r.cell 0 ∉ [ECON1.cell 0, ESTAT.cell 0, MISTAT.cell 0, EPKTCNT.cell 0] ∧
    (r.length = 2 → r.cell 1 ∉ [ECON1.cell 0, ESTAT.cell 0, MISTAT.cell 0, EPKTCNT.cell 0]) := by
  decide

theorem reaches_of_selected {o : OpcodeT} {off : Byte} (ha : Addressed reg off)
    (h : Selected (chip si) reg c) : Reaches ⟨o, reg, off⟩ c := ha.cell h

/-- A read in the selected bank. -/
theorem hush_read {off : Byte} (ha : Addressed reg off) (h : Selected (chip si) reg c) :
    hush.read ⟨.readControlRegister, reg, off⟩ c := ⟨rfl, ha, reaches_of_selected ha h⟩

theorem hush_write {off : Byte} (ha : Addressed reg off) (h : Selected (chip si) reg c)
    (hx : reg.cell off ≠ ECON1.cell 0) (hc : c.txrts = false) (v : Byte) :
    hush.write ⟨.writeControlRegister, reg, off⟩ v c := by
  refine ⟨⟨rfl, ha, reaches_of_selected ha h, hc, fun he ↦ absurd he hx⟩, fun he ↦ ?_⟩
  subst he
  obtain ⟨-, -, rfl | ⟨-, hl⟩⟩ := ha
  · exact absurd rfl hx
  · exact absurd hl (by decide)

theorem spec_fetch (hr : Readable reg) : (bench tot si).Spec (At (bench tot si) d (Same c₀))
    (enc28j60ReadReg reg)
    fun v ↦ At (bench tot si) (touch reg d) fun c ↦ v = fetch reg c₀ ∧ Same c₀ c := by
  obtain ⟨hm, ht, hp⟩ := hr
  obtain ⟨h₀, h₁⟩ := readable_cell reg hm ht hp
  have hne₀ : reg.cell 0 ≠ ECON1.cell 0 := fun h ↦ h₀ (by rw [h]; exact List.mem_cons_self)
  have hst (p : Prop) : (bench tot si).Stable fun c ↦ p ∧ Same c₀ c :=
    fun e c h ↦ ⟨h.1, stable_same e c h.2⟩
  refine (bench_lawful tot si).spec_readReg hm ht bankable_same.opens
    (R := fun low c ↦ low = c₀.peek (reg.cell 0) ∧ Same c₀ c)
    (fun _ ↦ hst _) (fun _ ↦ hst _) ?_ ?_ ?_
  · rintro c ⟨b, seen, rfl⟩ hsel
    refine ⟨hush_read ⟨hm, ht, .inl rfl⟩ hsel, ?_⟩
    have hc : (rebank c₀ b seen).readCell si (reg.cell 0) = _ := readCell_plain h₀ _
    exact ⟨(congrArg Prod.fst hc).trans (peek_rebank hne₀), b, seen, congrArg Prod.snd hc⟩
  · rintro hl low c ⟨rfl, hc⟩
    exact ⟨by rw [fetch, if_neg hl], hc⟩
  · rintro hl low c ⟨rfl, b, seen, rfl⟩ hsel
    have hne₁ : reg.cell 1 ≠ ECON1.cell 0 := fun h ↦ h₁ hl (by rw [h]; exact List.mem_cons_self)
    refine ⟨hush_read ⟨hm, ht, .inr ⟨rfl, hl⟩⟩ hsel, ?_⟩
    have hc : (rebank c₀ b seen).readCell si (reg.cell 1) = _ := readCell_plain (h₁ hl) _
    refine ⟨?_, b, seen, congrArg Prod.snd hc⟩
    rw [fetch, if_pos hl, ← peek_rebank hne₁]
    exact congrArg (word · _) (congrArg Prod.fst hc)

theorem setReg_rebank {x : Cell} (h : x ≠ ECON1.cell 0) (v : Byte) :
    (rebank c b seen).setReg x v = rebank (c.setReg x v) b seen := by
  simp only [Chip.setReg, rebank, Function.update_comm h]

theorem writeCell_rebank {x : Cell} (h : x ≠ ECON1.cell 0) (v : Byte) :
    (rebank c b seen).writeCell si x v = rebank (c.writeCell si x v) b seen := by
  have hregs (c : Chip) (r : RegT) (k : Byte) (hr : r.cell k ≠ ECON1.cell 0) :
      (rebank c b seen).regs (r.cell k) = c.regs (r.cell k) := regs_rebank hr
  unfold Chip.writeCell
  simp only [setReg_rebank h]
  rw [if_neg h, if_neg h, hregs c ERXRDPTL 0 (by decide), hregs _ ERXSTL 1 (by decide),
    hregs _ ERXSTL 0 (by decide), hregs c MIREGADR 0 (by decide), hregs c MIWRL 0 (by decide)]
  split_ifs
  · simp only [Chip.writeEcon2, setReg_rebank (x := ECON2.cell 0) (by decide)]
    rfl
  all_goals rfl

theorem writeCell_same (r : RegT) (off : Byte) (h : r.cell off ≠ ECON1.cell 0) (v : Byte) :
    (bench tot si).device.writeCell (r.cell off) v (rebank c b seen) =
      rebank (c.writeCell si (r.cell off) v) b seen := writeCell_rebank h v

theorem place_rebank (hr : Writable reg) (v : Word) :
    place si reg v (rebank c b seen) = rebank (place si reg v c) b seen := by
  obtain ⟨hm, ht, hn⟩ := hr
  have he := registerMap_econ1 reg hm ht
  unfold place
  simp only [writeCell_rebank fun h ↦ hn (he.1.mp h)]
  split
  next hl => rw [writeCell_rebank (he.2 hl)]
  next => rfl

theorem spec_place (hr : Writable reg) (v : Word) : (bench tot si).Spec (At (bench tot si) d (Same c₀))
    (enc28j60WriteReg reg v) fun _ ↦ At (bench tot si) (touch reg d) (Same (place si reg v c₀)) := by
  obtain ⟨hm, ht, hn⟩ := hr
  have he := registerMap_econ1 reg hm ht
  refine (bench_lawful tot si).spec_writeReg hm ht bankable_same.opens
    (R := Same (c₀.writeCell si (reg.cell 0) (v.setWidth 8))) stable_same stable_same
    (fun h ↦ absurd h hn) ?_ ?_ ?_
  · rintro c ⟨b, seen, rfl⟩ hsel
    have hx : reg.cell 0 ≠ ECON1.cell 0 := fun h ↦ hn (he.1.mp h)
    exact ⟨hush_write ⟨hm, ht, .inl rfl⟩ hsel hx txrts_rebank _, b, seen, writeCell_rebank hx _⟩
  · rintro hl c hc
    rw [place]
    simp only [if_neg hl]
    exact hc
  · rintro hl c ⟨b, seen, rfl⟩ hsel
    refine ⟨hush_write ⟨hm, ht, .inr ⟨rfl, hl⟩⟩ hsel (he.2 hl) txrts_rebank _, b, seen, ?_⟩
    rw [place]
    simp only [if_pos hl]
    exact writeCell_rebank (he.2 hl) _

section Polling

theorem bit0_clear : ∀ v : Byte, (v &&& ~~~0x01).getLsbD 0 = false ∧
    (v &&& ~~~0x01 ||| 0x01).getLsbD 0 = true := by decide

theorem spec_clkrdy : (bench tot si).Spec (At (bench tot si) d (Same c₀))
    (Driver.doWhile (enc28j60ReadReg ESTAT) fun status ↦ EstatReg.clkrdy.get status = 0)
    fun _ ↦ At (bench tot si) d (Same { c₀ with clkWait := 0 }) := by
  have hclk {n : ℕ} (v : BitVec n) : EstatReg.clkrdy.get v = (v.getLsbD 0).toNat := busy_get v
  let answer (n : ℕ) (v : Byte) (c : Chip) : Prop :=
    (v.getLsbD 0 = false → ∃ k < n, Same { c₀ with clkWait := k } c) ∧
      (v.getLsbD 0 = true → Same { c₀ with clkWait := 0 } c)
  have hst (n : ℕ) (v : Byte) : (bench tot si).Stable (answer n v) := by
    rintro e c ⟨h₀, h₁⟩
    refine ⟨fun hv ↦ ?_, fun hv ↦ stable_same e c (h₁ hv)⟩
    obtain ⟨k, hk, hc⟩ := h₀ hv
    exact ⟨k, hk, stable_same e c hc⟩
  have hpoll (n : ℕ) : (bench tot si).Spec (At (bench tot si) d (Same { c₀ with clkWait := n }))
      (enc28j60ReadReg ESTAT)
      fun v ↦ At (bench tot si) d fun c ↦ ∃ low : Byte, v = low.setWidth 16 ∧ answer n low c := by
    refine (bench_lawful tot si).spec_readReg (show ESTAT ∈ registerMap by decide) (by decide)
      (opens_common rfl stable_same) (R := answer n) (hst n)
      (fun v e c ⟨low, hv, h⟩ ↦ ⟨low, hv, hst n low e c h⟩) ?_ (fun _ low c h ↦ ⟨low, rfl, h⟩)
      (fun hl ↦ absurd hl (by decide))
    rintro c ⟨b, seen, rfl⟩ hsel
    refine ⟨hush_read ⟨by decide, by decide, .inl rfl⟩ hsel, ?_⟩
    generalize hx : { c₀ with clkWait := n } = c₁
    have hr : (rebank c₁ b seen).readCell si (ESTAT.cell 0) = (rebank c₁ b seen).readEstat := rfl
    change answer n ((rebank c₁ b seen).readCell si (ESTAT.cell 0)).1
      ((rebank c₁ b seen).readCell si (ESTAT.cell 0)).2
    rw [hr]
    subst hx
    have hbits := bit0_clear ((rebank { c₀ with clkWait := n } b seen).regs (ESTAT.cell 0))
    cases n with
    | zero =>
      refine ⟨fun hv ↦ ?_, fun _ ↦ ⟨b, seen, rfl⟩⟩
      exact absurd (hv.symm.trans hbits.2) nofun
    | succ n =>
      refine ⟨fun _ ↦ ⟨n, Nat.lt_succ_self n, b, seen, rfl⟩, fun hv ↦ ?_⟩
      exact absurd (hv.symm.trans hbits.1) nofun
  refine spec_doWhile (J := fun n ↦ At (bench tot si) d (Same { c₀ with clkWait := n }))
    (fun n ↦ (hpoll n).mono (fun _ _ h ↦ h) ?_) c₀.clkWait
  rintro v d' c ⟨rfl, hcoh, low, rfl, h₀, h₁⟩
  have hlow : (low.setWidth 16 : Word).getLsbD 0 = low.getLsbD 0 := by
    simp
  rw [hclk, hlow]
  cases hv : low.getLsbD 0 with
  | false =>
    obtain ⟨k, hk, hc⟩ := h₀ hv
    exact ⟨fun _ ↦ ⟨k, fun _ ↦ hk, rfl, hcoh, hc⟩, nofun⟩
  | true => exact ⟨nofun, fun _ ↦ ⟨rfl, hcoh, h₁ hv⟩⟩

theorem finishMiim_rebank (op : Miim) :
    (rebank c b seen).finishMiim op = rebank (c.finishMiim op) b seen := by
  cases op with
  | write a v => rfl
  | read a =>
    have h (c : Chip) (r : RegT) (off : Byte) (v : Byte) (hr : r.cell off ≠ ECON1.cell 0) :
        (rebank c b seen).setReg (r.cell off) v = rebank (c.setReg (r.cell off) v) b seen :=
      setReg_rebank hr v
    simp only [Chip.finishMiim]
    rw [h _ MIRDL 0 _ (by decide), h _ MIRDL 1 _ (by decide)]
    rfl

/-- The answers of `MISTAT` while a transaction is under way. -/
theorem answer_mistat (op : Miim) (n : ℕ) :
    Answer (bench tot si) (fun n ↦ Same { c with mii := some (op, n) }) (Same (c.finishMiim op)) n
      ((rebank { c with mii := some (op, n) } b seen).readCell si (MISTAT.cell 0)).1
      ((rebank { c with mii := some (op, n) } b seen).readCell si (MISTAT.cell 0)).2 := by
  have hr (c : Chip) : c.readCell si (MISTAT.cell 0) = c.readMistat := rfl
  rw [hr]
  have hbits := bit0_clear ((rebank { c with mii := some (op, n) } b seen).regs (MISTAT.cell 0))
  cases n with
  | zero =>
    refine ⟨fun hv ↦ absurd (hv.symm.trans hbits.1) nofun, fun _ ↦ ⟨b, seen, ?_⟩⟩
    refine (finishMiim_rebank op).trans ?_
    cases op <;> rfl
  | succ n =>
    refine ⟨fun _ ↦ ⟨n, fun _ ↦ Nat.lt_succ_self n, b, seen, rfl⟩, fun hv ↦ ?_⟩
    exact absurd hbits.2 hv

end Polling

section Phy

/-- The state a read of the PHY register at `a` leaves. -/
def phyRead (si : Silicon) (a : Byte) (c : Chip) : Chip :=
  let c₂ := (c.writeCell si (MIREGADR.cell 0) a).writeCell si (MICMD.cell 0)
    (MicmdReg8.miird.set 1 (c.peek (MICMD.cell 0)))
  let c₃ := c₂.finishMiim (.read (a.setWidth 5))
  c₃.writeCell si (MICMD.cell 0) (MicmdReg8.miird.set 0 (c₃.peek (MICMD.cell 0)))

/-- The state a write of the PHY register at `a` leaves. -/
def phyWrite (si : Silicon) (a : Byte) (v : Word) (c : Chip) : Chip :=
  (place si MIWRL v (c.writeCell si (MIREGADR.cell 0) a)).finishMiim (.write (a.setWidth 5) v)

/-- A read transaction is under way once `MIIRD` is set. -/
theorem mii_micmd (a v : Byte) (hv : v.getLsbD 0 = true) :
    ((c.writeCell si (MIREGADR.cell 0) a).writeCell si (MICMD.cell 0) v).mii =
      some (.read (a.setWidth 5), si.delay c.draws) := by
  rw [writeCell_micmd hv, writeCell_plain (by decide)]
  simp only [Chip.startMiim, regs_setReg, if_true]
  rfl

theorem place_miwr (v : Word) : place si MIWRL v c =
    (c.writeCell si (MIWRL.cell 0) (v.setWidth 8)).writeCell si (MIWRL.cell 1)
      ((v >>> 8).setWidth 8) := rfl

theorem mii_miwr (a : Byte) (v : Word) :
    (place si MIWRL v (c.writeCell si (MIREGADR.cell 0) a)).mii =
      some (.write (a.setWidth 5) v, si.delay c.draws) := by
  rw [place_miwr, writeCell_plain (x := MIREGADR.cell 0) (by decide),
    writeCell_plain (x := MIWRL.cell 0) (by decide), writeCell_miwrh, regs_setReg,
    if_neg (by decide), regs_setReg, if_pos rfl, regs_setReg, if_pos rfl, word_bytes]
  rfl

theorem spec_phyRead (hr : reg ∈ registerMap) (ht : reg.type = .phyR) :
    (bench tot si).Spec (At (bench tot si) d (Same c₀)) (enc28j60ReadReg reg)
      fun v ↦ At (bench tot si) { d with bank := .bank2 } fun c ↦
        v = fetch MIRDL (phyRead si reg.regAddr c₀) ∧ Same (phyRead si reg.regAddr c₀) c := by
  have hst (p : Prop) (c₀ : Chip) : (bench tot si).Stable fun c ↦ p ∧ Same c₀ c :=
    fun e c h ↦ ⟨h.1, stable_same e c h.2⟩
  have hsel {r : RegT} {c : Chip} (hb : r.bank = .bank2) (h : c.econ1.setWidth 2 = 2) :
      Selected (chip si) r c := by
    intro _
    rw [hb]
    exact h
  have hread {x : Cell} (c₀ : Chip) (h : x ∉ [ECON1.cell 0, ESTAT.cell 0,
      MISTAT.cell 0, EPKTCNT.cell 0]) (b seen : BitVec 2) :
      (rebank c₀ b seen).readCell si x = (c₀.peek x, rebank c₀ b seen) := by
    rw [readCell_plain h, peek_rebank fun he ↦ h (by rw [he]; exact List.mem_cons_self)]
  have hmicmd : Addressed MICMD 0 := ⟨by decide, by decide, .inl rfl⟩
  let a := reg.regAddr
  let v := c₀.peek (MICMD.cell 0)
  let c₁ := c₀.writeCell si (MIREGADR.cell 0) a
  let c₂ := c₁.writeCell si (MICMD.cell 0) (MicmdReg8.miird.set 1 v)
  let op : Miim := .read (a.setWidth 5)
  let c₃ := c₂.finishMiim op
  refine spec_readPhy (bench_lawful tot si) hr ht (P := Same c₀) (F := fun w c ↦ w = v ∧ Same c₀ c)
    (G := fun w c ↦ w = v ∧ Same c₁ c) (W := fun n ↦ Same { c₂ with mii := some (op, n) })
    (V := Same c₃) (Y := fun w c ↦ w = c₃.peek (MICMD.cell 0) ∧ Same c₃ c)
    (T := Same (phyRead si a c₀))
    (U := fun w c ↦ w = (phyRead si a c₀).peek (MIRDL.cell 0) ∧ Same (phyRead si a c₀) c)
    bankable_same (fun _ ↦ hst _ _) (fun _ ↦ hst _ _) (fun _ ↦ bankable_same) bankable_same
    (fun _ ↦ hst _ _) stable_same (fun _ ↦ hst _ _) (fun _ ↦ hst _ _) ?_ ?_ ?_ ?_ ?_ ?_ ?_ ?_
  · rintro c hb ⟨b, seen, rfl⟩
    have h := hread c₀ (x := MICMD.cell 0) (by decide) b seen
    exact ⟨hush_read hmicmd (hsel rfl hb), congrArg Prod.fst h, b, seen, congrArg Prod.snd h⟩
  · rintro w c hb ⟨rfl, b, seen, rfl⟩
    exact ⟨hush_write ⟨by decide, by decide, .inl rfl⟩ (hsel rfl hb) (by decide) txrts_rebank _,
      rfl, b, seen, writeCell_same MIREGADR 0 (by decide) _⟩
  · rintro w c hb ⟨rfl, b, seen, rfl⟩
    refine ⟨hush_write hmicmd (hsel rfl hb) (by decide) txrts_rebank _, si.delay c₀.draws,
      b, seen, (writeCell_same MICMD 0 (by decide) _).trans ?_⟩
    have h : c₂.mii = some (op, si.delay c₀.draws) := mii_micmd a _ (miird_set v).1
    rw [← h]
  · rintro n c hb ⟨b, seen, rfl⟩
    refine ⟨hush_read ⟨by decide, by decide, .inl rfl⟩ fun _ ↦ hb, ?_⟩
    exact answer_mistat op n
  · rintro c hb ⟨b, seen, rfl⟩
    have h := hread c₃ (x := MICMD.cell 0) (by decide) b seen
    exact ⟨hush_read hmicmd (hsel rfl hb), congrArg Prod.fst h, b, seen, congrArg Prod.snd h⟩
  · rintro w c hb ⟨rfl, b, seen, rfl⟩
    exact ⟨hush_write hmicmd (hsel rfl hb) (by decide) txrts_rebank _, b, seen,
      writeCell_same MICMD 0 (by decide) _⟩
  · rintro c hb ⟨b, seen, rfl⟩
    have h := hread (phyRead si a c₀) (x := MIRDL.cell 0) (by decide) b seen
    exact ⟨hush_read ⟨by decide, by decide, .inl rfl⟩ (hsel rfl hb), congrArg Prod.fst h, b, seen,
      congrArg Prod.snd h⟩
  · rintro low c hb ⟨rfl, b, seen, rfl⟩
    have h := hread (phyRead si a c₀) (x := MIRDL.cell 1) (by decide) b seen
    exact ⟨hush_read ⟨by decide, by decide, .inr ⟨rfl, rfl⟩⟩ (hsel rfl hb),
      congrArg (word · _) (congrArg Prod.fst h), b, seen, congrArg Prod.snd h⟩

theorem spec_phyWrite (hr : reg ∈ registerMap) (ht : reg.type = .phyR) (hd : d.bank = .bank2)
    (v : Word) : (bench tot si).Spec (At (bench tot si) d (Same c₀)) (enc28j60WriteReg reg v)
      fun _ ↦ At (bench tot si) (touch MISTAT d) (Same (phyWrite si reg.regAddr v c₀)) := by
  have hbank {c : Chip} (h : Coherent (chip si) d c) : c.econ1.setWidth 2 = 2 := by
    have hb := h.resolve_left (by rw [hd]; nofun)
    rwa [hd] at hb
  have hsel {r : RegT} {c : Chip} (hb : r.bank = .bank2) (h : Coherent (chip si) d c) :
      Selected (chip si) r c := by
    intro _
    rw [hb]
    exact hbank h
  let a := reg.regAddr
  let c₁ := c₀.writeCell si (MIREGADR.cell 0) a
  let op : Miim := .write (a.setWidth 5) v
  refine spec_writePhy (bench_lawful tot si) hr ht (P := Same c₀) (F := Same c₁)
    (G := Same (c₁.writeCell si (MIWRL.cell 0) (v.setWidth 8)))
    (W := fun n ↦ Same { place si MIWRL v c₁ with mii := some (op, n) }) stable_same stable_same
    stable_same (fun _ ↦ bankable_same) stable_same ?_ ?_ ?_ ?_
  · rintro c hc ⟨b, seen, rfl⟩
    refine ⟨hush_write ⟨by decide, by decide, .inl rfl⟩ (hsel rfl hc) (by decide) txrts_rebank _,
      b, seen, ?_⟩
    have hb : (bench tot si).device.bsel (rebank c₀ b seen) = 2 := hbank hc
    rw [hb]
    exact writeCell_same MIREGADR 0 (by decide) _
  · rintro c hc ⟨b, seen, rfl⟩
    refine ⟨hush_write ⟨by decide, by decide, .inl rfl⟩ (hsel rfl hc) (by decide) txrts_rebank _,
      b, seen, ?_⟩
    have hb : (bench tot si).device.bsel (rebank c₁ b seen) = 2 := hbank hc
    rw [hb]
    exact writeCell_same MIWRL 0 (by decide) _
  · rintro c hc ⟨b, seen, rfl⟩
    refine ⟨hush_write ⟨by decide, by decide, .inr ⟨rfl, rfl⟩⟩ (hsel rfl hc) (by decide)
      txrts_rebank _, si.delay c₀.draws, b, seen, ?_⟩
    have hb : (bench tot si).device.bsel (rebank (c₁.writeCell si (MIWRL.cell 0) (v.setWidth 8)) b
      seen) = 2 := hbank hc
    have h : (place si MIWRL v c₁).mii = some (op, si.delay c₀.draws) := mii_miwr a v
    rw [hb, ← h]
    exact writeCell_same MIWRL 1 (by decide) _
  · rintro n c ⟨b, seen, rfl⟩ hsel
    exact ⟨hush_read ⟨by decide, by decide, .inl rfl⟩ hsel, answer_mistat op n⟩

theorem regs_finishRead (a : BitVec 5) (y : Cell) : (c.finishMiim (.read a)).regs y =
    if y = MIRDL.cell 1 then (c.phy a >>> 8).setWidth 8
    else if y = MIRDL.cell 0 then (c.phy a).setWidth 8 else c.regs y := by
  rw [← regs_setReg, ← regs_setReg]
  rfl

theorem fetch_phyRead (a : Byte) : fetch MIRDL (phyRead si a c) = c.phy (a.setWidth 5) := by
  let c₂ := (c.writeCell si (MIREGADR.cell 0) a).writeCell si (MICMD.cell 0)
    (MicmdReg8.miird.set 1 (c.peek (MICMD.cell 0)))
  have hphy : c₂.phy = c.phy := (phy_writeCell _ _).trans (phy_writeCell _ _)
  have hregs (y : Cell) (hy : y ≠ MICMD.cell 0) :
      (phyRead si a c).regs y = (c₂.finishMiim (.read (a.setWidth 5))).regs y := by
    rw [phyRead, regs_writeCell (by decide), if_neg hy]
  have hpeek (off : Byte) (hoff : off = 0 ∨ off = 1) :
      (phyRead si a c).peek (MIRDL.cell off) = (phyRead si a c).regs (MIRDL.cell off) := by
    rcases hoff with rfl | rfl <;> rfl
  have hl : MIRDL.length = 2 := rfl
  rw [fetch, if_pos hl, hpeek 1 (.inr rfl), hpeek 0 (.inl rfl), hregs _ (by decide),
    hregs _ (by decide), regs_finishRead, regs_finishRead, if_pos rfl, if_neg (by decide),
    if_pos rfl, hphy, word_bytes]

theorem phy_phyRead (a : Byte) : (phyRead si a c).phy = c.phy := by
  have h : ((c.writeCell si (MIREGADR.cell 0) a).writeCell si (MICMD.cell 0)
      (MicmdReg8.miird.set 1 (c.peek (MICMD.cell 0)))).phy = c.phy :=
    (phy_writeCell _ _).trans (phy_writeCell _ _)
  rw [phyRead, phy_writeCell]
  exact h

theorem regs_phyRead (a : Byte) {y : Cell}
    (h : y ∉ [MIREGADR.cell 0, MICMD.cell 0, MIRDL.cell 0, MIRDL.cell 1]) :
    (phyRead si a c).regs y = c.regs y := by
  simp only [List.mem_cons, List.not_mem_nil, or_false, not_or] at h
  obtain ⟨h₁, h₂, h₃, h₄⟩ := h
  rw [phyRead, regs_writeCell (by decide), if_neg h₂, regs_finishRead, if_neg h₄, if_neg h₃,
    regs_writeCell (by decide), if_neg h₂, regs_writeCell (by decide), if_neg h₁]

theorem phy_phyWrite (a : Byte) (v : Word) :
    (phyWrite si a v c).phy = Function.update c.phy (a.setWidth 5) v := by
  have h : (place si MIWRL v (c.writeCell si (MIREGADR.cell 0) a)).phy = c.phy := by
    rw [place_miwr, phy_writeCell, phy_writeCell, phy_writeCell]
  rw [phyWrite, ← h]
  rfl

theorem regs_phyWrite (a : Byte) (v : Word) {y : Cell}
    (h : y ∉ [MIREGADR.cell 0, MIWRL.cell 0, MIWRL.cell 1]) :
    (phyWrite si a v c).regs y = c.regs y := by
  simp only [List.mem_cons, List.not_mem_nil, or_false, not_or] at h
  obtain ⟨h₁, h₂, h₃⟩ := h
  change (place si MIWRL v (c.writeCell si (MIREGADR.cell 0) a)).regs y = _
  rw [place_miwr, regs_writeCell (by decide), if_neg h₃, regs_writeCell (by decide), if_neg h₂,
    regs_writeCell (by decide), if_neg h₁]

end Phy

section Reset

theorem same_reset (x : Chip) : Same (x.reset si) (x.reset si) := by
  refine ⟨0, 0, ?_⟩
  have h : Function.update (x.reset si).regs (ECON1.cell 0) ((0 : BitVec 2).setWidth 8) =
      (x.reset si).regs := by
    rw [Function.update_eq_self_iff]
    exact si.econ1.symm
  rw [rebank, h]
  rfl

theorem spec_softReset {P : Chip → Prop} (hP : (bench tot si).Stable P)
    (hd : d.bank = .common ∨ d.bank = .bank0) :
    (bench tot si).Spec (fun d' c ↦ d' = d ∧ P c) enc28j60SoftReset
      fun _ ↦ At (bench tot si) d fun c ↦ ∃ x, P x ∧ Same (x.reset si) c := by
  refine (Transfers.spec_softReset (bench_lawful tot si) hP (d := d)
    (Q := fun c ↦ ∃ x, P x ∧ Same (x.reset si) c) ?_ ?_).mono (fun _ _ h ↦ h) ?_
  · rintro e c ⟨x, hx, hc⟩
    exact ⟨x, hx, stable_same e c hc⟩
  · exact fun c hc ↦ ⟨⟨⟨fun _ h ↦ absurd rfl h, nofun⟩, .inl ⟨rfl, .inl rfl⟩⟩, c, hc, same_reset c⟩
  · rintro - d' c ⟨rfl, hb, h⟩
    refine ⟨rfl, hd.imp_right fun hd ↦ ?_, h⟩
    rw [hd]
    exact hb

end Reset

section Buffers

variable {n : Word}

theorem autoinc_rebank : (rebank c b seen).autoinc = c.autoinc :=
  congrArg (fun v : Byte ↦ v.getLsbD 7) (regs_rebank (by decide))

theorem ptr_rebank {r : RegT} (h₀ : r.cell 0 ≠ ECON1.cell 0) (h₁ : r.cell 1 ≠ ECON1.cell 0) :
    (rebank c b seen).ptr r = c.ptr r := by
  rw [Chip.ptr, Chip.ptr, regs_rebank h₀, regs_rebank h₁]

theorem setPtr_rebank {r : RegT} (h₀ : r.cell 0 ≠ ECON1.cell 0) (h₁ : r.cell 1 ≠ ECON1.cell 0)
    (a : ℕ) : (rebank c b seen).setPtr r a = rebank (c.setPtr r a) b seen := by
  rw [Chip.setPtr, Chip.setPtr, setReg_rebank h₀, setReg_rebank h₁]

theorem writeBuf_rebank (v : Byte) :
    (rebank c b seen).writeBuf v = rebank (c.writeBuf v) b seen := by
  unfold Chip.writeBuf
  simp only [ptr_rebank (r := EWRPTL) (by decide) (by decide), autoinc_rebank]
  split
  · exact setPtr_rebank (r := EWRPTL)
      (c := { c with
        mem := Function.update c.mem (c.ptr EWRPTL) v, stored := c.stored ++ [c.ptr EWRPTL] })
      (by decide) (by decide) _
  · rfl

theorem readBuf_rebank :
    (rebank c b seen).readBuf = (c.readBuf.1, rebank c.readBuf.2 b seen) := by
  unfold Chip.readBuf
  simp only [ptr_rebank (r := ERDPTL) (by decide) (by decide),
    ptr_rebank (r := ERXNDL) (by decide) (by decide),
    ptr_rebank (r := ERXSTL) (by decide) (by decide), autoinc_rebank]
  refine Prod.ext rfl ?_
  simp only
  split
  · exact setPtr_rebank (r := ERDPTL) (by decide) (by decide) _
  · rfl

theorem stable_exists_same {W : Chip → Prop} : (bench tot si).Stable fun c ↦ ∃ x, W x ∧ Same x c := by
  rintro e c ⟨x, hx, hc⟩
  exact ⟨x, hx, stable_same e c hc⟩

theorem spec_writeBuf {f : ℤ → Byte} {W : ℕ → Chip → Prop} (hn : n.toNat ≤ 32767)
    (hauto : ∀ k x, W k x → x.autoinc = true)
    (hstep : ∀ k < n.toNat, ∀ x, W k x → W (k + 1) (x.writeBuf (f k))) :
    (bench tot si).Spec (At (bench tot si) d fun c ↦ ∃ x, W 0 x ∧ Same x c) (enc28j60WriteBuf f n)
      fun _ ↦ At (bench tot si) d fun c ↦ ∃ x, W n.toNat x ∧ Same x c := by
  refine (Transfers.spec_writeBuf (bench_lawful tot si) (P := fun k c ↦ ∃ x, W k x ∧ Same x c)
    (fun _ ↦ hn) (fun _ ↦ stable_exists_same) ?_ ?_).mono (fun _ _ h ↦ h)
    fun _ _ _ h ↦ ⟨h.1, h.2.1, h.2.2.2⟩
  · rintro c ⟨x, hx, b, seen, rfl⟩
    exact ⟨⟨fun _ _ ↦ autoinc_rebank.trans (hauto 0 x hx), nofun⟩, .inl ⟨rfl, .inr (.inr rfl)⟩⟩
  · rintro k hk c ⟨x, hx, b, seen, rfl⟩
    have hk' : k < n.toNat := by omega
    have hi : (BitVec.ofNat 16 k).toInt = k := by
      rw [BitVec.toInt_eq_toNat_of_lt, BitVec.toNat_ofNat]
      · omega
      · rw [BitVec.toNat_ofNat]
        omega
    rw [hi]
    exact ⟨⟨⟨nofun, fun _ ↦ txrts_rebank⟩, .inr (.inr rfl)⟩, _, hstep k hk' x hx, b, seen,
      writeBuf_rebank _⟩

theorem spec_readBuf {buf : ℕ → Byte} {W : List Byte → Chip → Prop}
    (hauto : ∀ l x, W l x → x.autoinc = true)
    (hstep : ∀ l, l.length < n.toNat → ∀ x, W l x → W (l ++ [x.readBuf.1]) x.readBuf.2) :
    (bench tot si).Spec (At (bench tot si) d fun c ↦ ∃ x, W [] x ∧ Same x c) (enc28j60ReadBuf buf n)
      fun r ↦ At (bench tot si) d fun c ↦ ∃ l : List Byte, l.length = n.toNat ∧ r = overlay l buf ∧
        ∃ x, W l x ∧ Same x c := by
  refine Transfers.spec_readBuf (bench_lawful tot si) (P := fun l c ↦ ∃ x, W l x ∧ Same x c)
    (fun _ ↦ stable_exists_same) ?_ ?_
  · rintro c ⟨x, hx, b, seen, rfl⟩
    exact ⟨⟨fun _ _ ↦ autoinc_rebank.trans (hauto [] x hx), nofun⟩, .inl ⟨rfl, .inr (.inl rfl)⟩⟩
  · rintro l hl c ⟨x, hx, b, seen, rfl⟩
    have hr : (bench tot si).device.readBuf (rebank x b seen) =
        (x.readBuf.1, rebank x.readBuf.2 b seen) := readBuf_rebank
    rw [hr]
    exact ⟨⟨⟨nofun, nofun⟩, .inr (.inl rfl)⟩, _, hstep l hl x hx, b, seen, rfl⟩

end Buffers

end Enc28j60.Quiet
