import Enc28j60.Access

namespace Enc28j60.Banking

open Interaction RegisterMap SpiSlave Port LowLayer Access

variable {C E α : Type}

/-- `BSEL` is a field of `ECON1` and nothing else of the chip. -/
structure Lawful (B : Setting C E) : Prop where
  ev (e : E) (c : C) : B.device.bsel (B.ev e c) = B.device.bsel c
  readCell (x : Cell) (c : C) : B.device.bsel (B.device.readCell x c).2 = B.device.bsel c
  writeCell (x : Cell) (b : Byte) (c : C) : B.device.bsel (B.device.writeCell x b c) =
    if x = ECON1.cell 0 then b.setWidth 2 else B.device.bsel c
  setBits (x : Cell) (m : Byte) (c : C) : B.device.bsel (B.device.setBits x m c) =
    if x = ECON1.cell 0 then B.device.bsel c ||| m.setWidth 2 else B.device.bsel c
  clearBits (x : Cell) (m : Byte) (c : C) : B.device.bsel (B.device.clearBits x m c) =
    if x = ECON1.cell 0 then B.device.bsel c &&& ~~~m.setWidth 2 else B.device.bsel c
  readBuf (c : C) : B.device.bsel (B.device.readBuf c).2 = B.device.bsel c
  writeBuf (b : Byte) (c : C) : B.device.bsel (B.device.writeBuf b c) = B.device.bsel c
  reset (c : C) : B.device.bsel (B.device.reset c) = 0

/-- The cached bank is the selected one, or there is none. -/
def Coherent (D : Device C) (d : Enc28j60T) (c : C) : Prop :=
  d.bank = .common ∨ D.bsel c = d.bank.bits

/-- The driver's record once `reg` has been accessed. -/
def touch (reg : RegT) (d : Enc28j60T) : Enc28j60T :=
  if reg.bank = .common then d else { d with bank := reg.bank }

variable (B : Setting C E)

/-- The driver's record is `d`, its cached bank is coherent, and the chip satisfies `P`. -/
def At (d : Enc28j60T) (P : C → Prop) : Enc28j60T → C → Prop :=
  fun d' c ↦ d' = d ∧ Coherent B.device d c ∧ P c

/-- `P` survives the read and the write of `ECON1` by which the driver selects a bank. -/
def Bankable (P : C → Prop) : Prop :=
  B.Stable P ∧ ∀ c, P c → B.guard.read ⟨.readControlRegister, ECON1, 0⟩ c ∧
    ∃ T : C → Prop, B.Stable T ∧ T (B.device.readCell (ECON1.cell 0) c).2 ∧
      ∀ (b : BankT) (c' : C), T c' →
        let v := Econ1Reg.bsel.set b.toNat (B.device.readCell (ECON1.cell 0) c).1
        B.guard.write ⟨.writeControlRegister, ECON1, 0⟩ v c' ∧
          P (B.device.writeCell (ECON1.cell 0) v c')

/-- What an access to `reg` asks of the assertion it starts from. -/
def Opens (reg : RegT) (P : C → Prop) : Prop :=
  B.Stable P ∧ (reg.bank ≠ .common → Bankable B P)

variable {B} {P : C → Prop} {d : Enc28j60T} {reg : RegT}

theorem Bankable.opens (h : Bankable B P) : Opens B reg P := ⟨h.1, fun _ ↦ h⟩

theorem opens_common (hb : reg.bank = .common) (h : B.Stable P) : Opens B reg P :=
  ⟨h, fun hn ↦ absurd hb hn⟩

theorem econ1_addressed : Addressed ECON1 0 := by
  refine ⟨?_, ?_, .inl rfl⟩ <;> decide

theorem econ1_selected (c : C) : Selected B.device ECON1 c := fun h ↦ absurd rfl h

theorem bsel_set (b : BankT) : ∀ v : Byte, (Econ1Reg.bsel.set b.toNat v).setWidth 2 = b.bits := by
  cases b <;> decide

theorem registerMap_econ1 : ∀ r ∈ registerMap, r.type ≠ .phyR →
    (r.cell 0 = ECON1.cell 0 ↔ r = ECON1) ∧ (r.length = 2 → r.cell 1 ≠ ECON1.cell 0) := by
  decide

/-- The two framings of a register read give the same value. -/
def readBody (reg : RegT) : Drv Word :=
  if reg.type = .ethR then readEthR reg else readMacMiiR reg

theorem readReg_eq (ht : reg.type ≠ .phyR) : enc28j60ReadReg reg = (do
    checkBank reg
    csSelect
    let v ← readBody reg
    csDeselect
    pure v) := by
  unfold enc28j60ReadReg readBody
  cases h : reg.type <;> first | rfl | exact absurd h ht

theorem writeReg_eq (ht : reg.type ≠ .phyR) (value : Word) :
    enc28j60WriteReg reg value = (do
      checkBank reg
      csSelect
      writeControlR reg value
      csDeselect) := by
  unfold enc28j60WriteReg
  cases h : reg.type <;> first | rfl | exact absurd h ht

section Bodies

variable (hr : reg ∈ registerMap) (ht : reg.type ≠ .phyR)
include hr ht

theorem does_readBody {s : Bus C} {R : Byte → C → Prop} {Q : Word → C → Prop}
    {Q' : Word → Enc28j60T → Bus C → Prop} (hP : B.Stable P) (hR : ∀ v, B.Stable (R v))
    (hs : s.window = .opcode) (h : P s.chip)
    (h₀ : ∀ c, P c → Selected B.device reg c ∧ B.guard.read ⟨.readControlRegister, reg, 0⟩ c ∧
      R (B.device.readCell (reg.cell 0) c).1 (B.device.readCell (reg.cell 0) c).2)
    (h₁ : reg.length ≠ 2 → ∀ low c, R low c → Q (low.setWidth 16) c)
    (h₂ : reg.length = 2 → ∀ low c, R low c → Selected B.device reg c ∧
      B.guard.read ⟨.readControlRegister, reg, 1⟩ c ∧
      Q (word (B.device.readCell (reg.cell 1) c).1 low) (B.device.readCell (reg.cell 1) c).2)
    (hQ : ∀ v c, Q v c → Q' v d ⟨.finished, c⟩) : B.Does (readBody reg) Q' d s := by
  have ha : Addressed reg 0 := ⟨hr, ht, .inl rfl⟩
  refine Machine.dwp_ite (fun hte ↦ Machine.dwp_bind.mpr ?_) fun hte ↦ Machine.dwp_bind.mpr ?_
  · refine Setting.does_readEth ha hte hP hs h fun c hc ↦ ?_
    obtain ⟨hsel, hg, hR₀⟩ := h₀ c hc
    refine ⟨hsel, hg, Machine.dwp_ite (fun hl ↦ ?_) fun hl ↦ hQ _ _ (h₁ hl _ _ hR₀)⟩
    generalize (B.device.readCell (reg.cell 0) c).1 = low at hR₀ ⊢
    refine Machine.dwp_bind.mpr (Setting.does_csDeselect (hR low) hR₀ fun c hc ↦ ?_)
    refine Machine.dwp_bind.mpr (Setting.does_csSelect (hR low) (.inl rfl) hc fun c hc ↦ ?_)
    refine Machine.dwp_bind.mpr (Setting.does_readEth ⟨hr, ht, .inr ⟨rfl, hl⟩⟩ hte (hR low) rfl hc
      fun c hc ↦ ?_)
    obtain ⟨hsel, hg, hq⟩ := h₂ hl low c hc
    rw [← or_shiftLeft] at hq
    exact ⟨hsel, hg, hQ _ _ hq⟩
  · refine Setting.does_readMacMii ha hte hP hs h fun c dummy hc ↦ ?_
    obtain ⟨hsel, hg, hR₀⟩ := h₀ c hc
    refine ⟨hsel, hg, Machine.dwp_ite (fun hl ↦ ?_) fun hl ↦ ?_⟩
    · generalize (B.device.readCell (reg.cell 0) c).1 = low at hR₀ ⊢
      refine Machine.dwp_bind.mpr (Setting.does_csDeselect (hR low) hR₀ fun c hc ↦ ?_)
      refine Machine.dwp_bind.mpr (Setting.does_csSelect (hR low) (.inl rfl) hc fun c hc ↦ ?_)
      refine Machine.dwp_bind.mpr (Setting.does_readMacMii ⟨hr, ht, .inr ⟨rfl, hl⟩⟩ hte (hR low)
        rfl hc fun c dummy' hc ↦ ?_)
      obtain ⟨hsel, hg, hq⟩ := h₂ hl low c hc
      rw [← word_or_word dummy dummy'] at hq
      exact ⟨hsel, hg, hQ _ _ hq⟩
    · have hq := h₁ hl _ _ hR₀
      rw [← word_and_low dummy] at hq
      exact hQ _ _ hq

theorem does_writeControlR {s : Bus C} {R Q : C → Prop} {value : Word}
    {Q' : Unit → Enc28j60T → Bus C → Prop} (hP : B.Stable P) (hR : B.Stable R)
    (hs : s.window = .opcode) (h : P s.chip)
    (h₀ : ∀ c, P c → Selected B.device reg c ∧
      B.guard.write ⟨.writeControlRegister, reg, 0⟩ (value.setWidth 8) c ∧
      R (B.device.writeCell (reg.cell 0) (value.setWidth 8) c))
    (h₁ : reg.length ≠ 2 → ∀ c, R c → Q c)
    (h₂ : reg.length = 2 → ∀ c, R c → Selected B.device reg c ∧
      B.guard.write ⟨.writeControlRegister, reg, 1⟩ ((value >>> 8).setWidth 8) c ∧
      Q (B.device.writeCell (reg.cell 1) ((value >>> 8).setWidth 8) c))
    (hQ : ∀ c, Q c → Q' () d ⟨.finished, c⟩) : B.Does (writeControlR reg value) Q' d s := by
  refine Machine.dwp_bind.mpr
    (Setting.does_writeSelected ⟨hr, ht, .inl rfl⟩ hP hs h fun c hc ↦ ?_)
  obtain ⟨hsel, hg, hR₀⟩ := h₀ c hc
  refine ⟨hsel, hg, Machine.dwp_ite (fun hl ↦ ?_) fun hl ↦ hQ _ (h₁ hl _ hR₀)⟩
  refine Machine.dwp_bind.mpr (Setting.does_csDeselect hR hR₀ fun c hc ↦ ?_)
  refine Machine.dwp_bind.mpr (Setting.does_csSelect hR (.inl rfl) hc fun c hc ↦ ?_)
  refine Setting.does_writeSelected ⟨hr, ht, .inr ⟨rfl, hl⟩⟩ hR rfl hc fun c hc ↦ ?_
  obtain ⟨hsel, hg, hq⟩ := h₂ hl c hc
  exact ⟨hsel, hg, hQ _ hq⟩

end Bodies

theorem spec_at_pure {m : Drv α} {Q : α → Enc28j60T → C → Prop} {p : Prop}
    (h : p → B.Spec (At B d P) m Q) : B.Spec (At B d fun c ↦ p ∧ P c) m Q :=
  fun d' s hs hp ↦ h hp.2.2.1 d' s hs ⟨hp.1, hp.2.1, hp.2.2.2⟩

theorem spec_at_exists {m : Drv α} {Q : α → Enc28j60T → C → Prop} {ι : Type} {P : ι → C → Prop}
    (h : ∀ i, B.Spec (At B d (P i)) m Q) : B.Spec (At B d fun c ↦ ∃ i, P i c) m Q := by
  rintro d' s hs ⟨hd, hcoh, i, hp⟩
  exact h i d' s hs ⟨hd, hcoh, hp⟩

/-- The driver's record is read. -/
theorem spec_at_get {f : Enc28j60T → Drv α} {Q : α → Enc28j60T → C → Prop}
    (h : B.Spec (At B d P) (f d) Q) : B.Spec (At B d P) (get >>= f) Q := by
  rintro d' s hs ⟨rfl, hat⟩
  exact h d' s hs ⟨rfl, hat⟩

namespace Lawful

variable (L : Lawful B)
include L

theorem stable_bsel (b : BitVec 2) : B.Stable fun c ↦ B.device.bsel c = b :=
  fun e c h ↦ (L.ev e c).trans h

theorem stable_coherent : B.Stable fun c ↦ Coherent B.device d c :=
  fun e c h ↦ h.imp_right (L.ev e c).trans

theorem stable_selected : B.Stable fun c ↦ Selected B.device reg c :=
  fun e c h hn ↦ (L.ev e c).trans (h hn)

theorem stable_at (hP : B.Stable P) (d' : Enc28j60T) : B.Stable (At B d P d') :=
  fun e c h ↦ ⟨h.1, L.stable_coherent e c h.2.1, hP e c h.2.2⟩

theorem spec_bankChanging (hP : Bankable B P) (b : BankT) :
    B.Spec (fun d' c ↦ d' = d ∧ P c) (enc28j60BankChanging b)
      fun _ ↦ At B { d with bank := b } P := by
  rintro d s hs ⟨rfl, hp⟩
  refine Machine.dwp_bind.mpr (Setting.does_csSelect hP.1 hs hp fun c hc ↦ ?_)
  refine Machine.dwp_bind.mpr (Setting.does_readEth econ1_addressed rfl hP.1 rfl hc fun c hc ↦ ?_)
  obtain ⟨hr, T, hT, ht, hw⟩ := hP.2 c hc
  refine ⟨econ1_selected c, hr, ?_⟩
  generalize (B.device.readCell (ECON1.cell 0) c).1 = tmp at hw ⊢
  refine Machine.dwp_bind.mpr (Setting.does_csDeselect hT ht fun c' hc' ↦ ?_)
  refine Machine.dwp_bind.mpr (Setting.does_csSelect hT (.inl rfl) hc' fun c' hc' ↦ ?_)
  refine Machine.dwp_bind.mpr
    (Setting.does_writeSelected econ1_addressed hT rfl hc' fun c' hc' ↦ ?_)
  obtain ⟨hg, hp'⟩ := hw b c' hc'
  refine ⟨econ1_selected c', hg, ?_⟩
  have hb := L.writeCell (ECON1.cell 0) (Econ1Reg.bsel.set b.toNat tmp) c'
  rw [if_pos rfl, bsel_set] at hb
  refine Machine.dwp_bind.mpr (Setting.does_csDeselect (hP.1.and (L.stable_bsel b.bits))
    ⟨hp', hb⟩ fun c'' hc'' ↦ ?_)
  exact ⟨rfl, rfl, .inr hc''.2, hc''.1⟩

theorem does_checkBank {s : Bus C} {Q : Unit → Enc28j60T → Bus C → Prop} (hP : Opens B reg P)
    (hs : Fresh s.window) (h : At B d P d s.chip)
    (hQ : ∀ s', Fresh s'.window → Coherent B.device (touch reg d) s'.chip → P s'.chip →
      Selected B.device reg s'.chip → Q () (touch reg d) s') :
    B.Does (checkBank reg) Q d s := by
  obtain ⟨-, hcoh, hp⟩ := h
  refine Machine.dwp_bind.mpr (Machine.dwp_get.mpr (Machine.dwp_ite ?_ ?_))
  · rintro ⟨-, hn⟩
    have ht : touch reg d = { d with bank := reg.bank } := if_neg hn
    refine Machine.dwp_mono (L.spec_bankChanging (hP.2 hn) reg.bank d s hs ⟨rfl, hp⟩) ?_
    rintro - d' s' ⟨hw, rfl, hcoh', hp'⟩
    rw [ht] at hQ
    exact hQ s' (.inl hw) hcoh' hp' fun _ ↦ hcoh'.resolve_left hn
  · intro hn
    have ht : touch reg d = d := by
      by_cases hr : reg.bank = .common
      · exact if_pos hr
      · have hd : d.bank = reg.bank := by
          by_contra hd
          exact hn ⟨hd, hr⟩
        rw [touch, if_neg hr, ← hd]
    refine Machine.dwp_pure.mpr ?_
    rw [ht] at hQ
    refine hQ s hs hcoh hp fun hr ↦ ?_
    have hd : d.bank = reg.bank := by
      by_contra hd
      exact hn ⟨hd, hr⟩
    rw [← hd]
    exact hcoh.resolve_left (hd ▸ hr)

section Read

variable (hr : reg ∈ registerMap) (ht : reg.type ≠ .phyR)
include hr ht

/-- A register read, for a register of the map that is not a PHY one: `R` holds once the low
byte has been read. -/
theorem spec_readReg (hP : Opens B reg P) {R : Byte → C → Prop} {Q : Word → C → Prop}
    (hR : ∀ v, B.Stable (R v)) (hQ : ∀ v, B.Stable (Q v))
    (h₀ : ∀ c, P c → Selected B.device reg c → B.guard.read ⟨.readControlRegister, reg, 0⟩ c ∧
      R (B.device.readCell (reg.cell 0) c).1 (B.device.readCell (reg.cell 0) c).2)
    (h₁ : reg.length ≠ 2 → ∀ low c, R low c → Q (low.setWidth 16) c)
    (h₂ : reg.length = 2 → ∀ low c, R low c → Selected B.device reg c →
      B.guard.read ⟨.readControlRegister, reg, 1⟩ c ∧
      Q (word (B.device.readCell (reg.cell 1) c).1 low) (B.device.readCell (reg.cell 1) c).2) :
    B.Spec (At B d P) (enc28j60ReadReg reg) fun v ↦ At B (touch reg d) (Q v) := by
  rintro d s hs ⟨rfl, hcoh, hp⟩
  rw [readReg_eq ht]
  refine Machine.dwp_bind.mpr (L.does_checkBank hP hs ⟨rfl, hcoh, hp⟩ fun s hs hcoh hp hsel ↦ ?_)
  generalize touch reg d = d at hcoh ⊢
  -- the bank is the same before, between and after the reads
  let banked (T : C → Prop) (c : C) : Prop :=
    (Coherent B.device d c ∧ Selected B.device reg c) ∧ T c
  have stable {T : C → Prop} (hT : B.Stable T) : B.Stable (banked T) :=
    (L.stable_coherent.and L.stable_selected).and hT
  have keep (x : Cell) {c : C} (h : Coherent B.device d c ∧ Selected B.device reg c) :
      Coherent B.device d (B.device.readCell x c).2 ∧
        Selected B.device reg (B.device.readCell x c).2 :=
    ⟨h.1.imp_right (L.readCell x c).trans, fun hn ↦ (L.readCell x c).trans (h.2 hn)⟩
  refine Machine.dwp_bind.mpr (Setting.does_csSelect (stable hP.1) hs ⟨⟨hcoh, hsel⟩, hp⟩
    fun c hc ↦ Machine.dwp_bind.mpr ?_)
  refine does_readBody (Q := fun v ↦ banked (Q v)) hr ht (stable hP.1)
    (fun v ↦ stable (hR v)) rfl hc ?_ ?_ ?_ fun v c hc ↦ ?_
  · exact fun c hc ↦ ⟨hc.1.2, (h₀ c hc.2 hc.1.2).1, keep _ hc.1, (h₀ c hc.2 hc.1.2).2⟩
  · exact fun hl low c hc ↦ ⟨hc.1, h₁ hl low c hc.2⟩
  · exact fun hl low c hc ↦
      ⟨hc.1.2, (h₂ hl low c hc.2 hc.1.2).1, keep _ hc.1, (h₂ hl low c hc.2 hc.1.2).2⟩
  · exact Machine.dwp_bind.mpr (Setting.does_csDeselect (stable (hQ v)) hc
      fun c hc ↦ ⟨rfl, rfl, hc.1.1, hc.2⟩)

/-- A register write, likewise. A write of `ECON1` has to leave the cached bank selected. -/
theorem spec_writeReg {value : Word} (hP : Opens B reg P) {R Q : C → Prop} (hR : B.Stable R)
    (hQ : B.Stable Q)
    (hbank : reg = ECON1 → d.bank ≠ .common → (value.setWidth 8 : Byte).setWidth 2 = d.bank.bits)
    (h₀ : ∀ c, P c → Selected B.device reg c →
      B.guard.write ⟨.writeControlRegister, reg, 0⟩ (value.setWidth 8) c ∧
      R (B.device.writeCell (reg.cell 0) (value.setWidth 8) c))
    (h₁ : reg.length ≠ 2 → ∀ c, R c → Q c)
    (h₂ : reg.length = 2 → ∀ c, R c → Selected B.device reg c →
      B.guard.write ⟨.writeControlRegister, reg, 1⟩ ((value >>> 8).setWidth 8) c ∧
      Q (B.device.writeCell (reg.cell 1) ((value >>> 8).setWidth 8) c)) :
    B.Spec (At B d P) (enc28j60WriteReg reg value) fun _ ↦ At B (touch reg d) Q := by
  rintro d s hs ⟨rfl, hcoh, hp⟩
  rw [writeReg_eq ht]
  refine Machine.dwp_bind.mpr (L.does_checkBank hP hs ⟨rfl, hcoh, hp⟩ fun s hs hcoh hp hsel ↦ ?_)
  have hbank' : reg = ECON1 → (touch reg d).bank ≠ .common →
      (value.setWidth 8 : Byte).setWidth 2 = (touch reg d).bank.bits := by
    rintro rfl
    exact hbank rfl
  generalize touch reg d = d at hcoh hbank' ⊢
  let banked (T : C → Prop) (c : C) : Prop :=
    (Coherent B.device d c ∧ Selected B.device reg c) ∧ T c
  have stable {T : C → Prop} (hT : B.Stable T) : B.Stable (banked T) :=
    (L.stable_coherent.and L.stable_selected).and hT
  have keep₀ {c : C} (h : Coherent B.device d c ∧ Selected B.device reg c) :
      Coherent B.device d (B.device.writeCell (reg.cell 0) (value.setWidth 8) c) ∧
        Selected B.device reg (B.device.writeCell (reg.cell 0) (value.setWidth 8) c) := by
    have hb := L.writeCell (reg.cell 0) (value.setWidth 8) c
    by_cases he : reg = ECON1
    · subst he
      rw [if_pos rfl] at hb
      refine ⟨?_, econ1_selected _⟩
      by_cases hd : d.bank = .common
      · exact .inl hd
      · exact .inr (hb.trans (hbank' rfl hd))
    · rw [if_neg fun hc ↦ he ((registerMap_econ1 reg hr ht).1.mp hc)] at hb
      exact ⟨h.1.imp_right hb.trans, fun hn ↦ hb.trans (h.2 hn)⟩
  have keep₁ (hl : reg.length = 2) {c : C} (h : Coherent B.device d c ∧ Selected B.device reg c) :
      Coherent B.device d (B.device.writeCell (reg.cell 1) ((value >>> 8).setWidth 8) c) ∧
        Selected B.device reg (B.device.writeCell (reg.cell 1) ((value >>> 8).setWidth 8) c) := by
    have hb := L.writeCell (reg.cell 1) ((value >>> 8).setWidth 8) c
    rw [if_neg ((registerMap_econ1 reg hr ht).2 hl)] at hb
    exact ⟨h.1.imp_right hb.trans, fun hn ↦ hb.trans (h.2 hn)⟩
  refine Machine.dwp_bind.mpr (Setting.does_csSelect (stable hP.1) hs ⟨⟨hcoh, hsel⟩, hp⟩
    fun c hc ↦ Machine.dwp_bind.mpr ?_)
  refine does_writeControlR (Q := banked Q) hr ht (stable hP.1) (stable hR) rfl hc ?_ ?_ ?_
    fun c hc ↦ ?_
  · exact fun c hc ↦ ⟨hc.1.2, (h₀ c hc.2 hc.1.2).1, keep₀ hc.1, (h₀ c hc.2 hc.1.2).2⟩
  · exact fun hl c hc ↦ ⟨hc.1, h₁ hl c hc.2⟩
  · exact fun hl c hc ↦
      ⟨hc.1.2, (h₂ hl c hc.2 hc.1.2).1, keep₁ hl hc.1, (h₂ hl c hc.2 hc.1.2).2⟩
  · exact Setting.does_csDeselect (stable hQ) hc fun c hc ↦ ⟨rfl, rfl, hc.1.1, hc.2⟩

end Read

section Bitfields

variable (hr : reg ∈ registerMap) (ht : reg.type = .ethR) {mask : Byte} {Q : C → Prop}
include hr ht

theorem spec_bitfieldSet (hP : Opens B reg P) (hQ : B.Stable Q)
    (hbank : reg = ECON1 → d.bank ≠ .common → d.bank.bits ||| mask.setWidth 2 = d.bank.bits)
    (h : ∀ c, P c → Selected B.device reg c → B.guard.write ⟨.bitFieldSet, reg, 0⟩ mask c ∧
      Q (B.device.setBits (reg.cell 0) mask c)) :
    B.Spec (At B d P) (enc28j60BitfieldSet reg mask) fun _ ↦ At B (touch reg d) Q := by
  rintro d s hs ⟨rfl, hcoh, hp⟩
  rw [enc28j60BitfieldSet, if_pos ht]
  refine Machine.dwp_bind.mpr (L.does_checkBank hP hs ⟨rfl, hcoh, hp⟩ fun s hs hcoh hp hsel ↦ ?_)
  have hbank' : reg = ECON1 → (touch reg d).bank ≠ .common →
      (touch reg d).bank.bits ||| mask.setWidth 2 = (touch reg d).bank.bits := by
    rintro rfl
    exact hbank rfl
  generalize touch reg d = d at hcoh hbank' ⊢
  have stable : B.Stable fun c ↦ (Coherent B.device d c ∧ Selected B.device reg c) ∧ P c :=
    (L.stable_coherent.and L.stable_selected).and hP.1
  refine Machine.dwp_bind.mpr (Setting.does_csSelect stable hs ⟨⟨hcoh, hsel⟩, hp⟩ fun c hc ↦ ?_)
  refine Machine.dwp_bind.mpr (Setting.does_set ⟨hr, by rw [ht]; decide, .inl rfl⟩ ht stable rfl hc
    fun c hc ↦ ?_)
  obtain ⟨hg, hq⟩ := h c hc.2 hc.1.2
  refine ⟨hc.1.2, hg, Setting.does_csDeselect (L.stable_coherent.and hQ) ⟨?_, hq⟩
    fun c hc ↦ ⟨rfl, rfl, hc⟩⟩
  by_cases hd : d.bank = .common
  · exact .inl hd
  have hb := L.setBits (reg.cell 0) mask c
  rw [hc.1.1.resolve_left hd] at hb
  refine .inr (hb.trans (ite_eq_right_iff.mpr fun he ↦ hbank' ?_ hd))
  exact (registerMap_econ1 reg hr (by rw [ht]; decide)).1.mp he

theorem spec_bitfieldClear (hP : Opens B reg P) (hQ : B.Stable Q)
    (hbank : reg = ECON1 → d.bank ≠ .common → d.bank.bits &&& ~~~mask.setWidth 2 = d.bank.bits)
    (h : ∀ c, P c → Selected B.device reg c → B.guard.write ⟨.bitFieldClear, reg, 0⟩ mask c ∧
      Q (B.device.clearBits (reg.cell 0) mask c)) :
    B.Spec (At B d P) (enc28j60BitfieldClear reg mask) fun _ ↦ At B (touch reg d) Q := by
  rintro d s hs ⟨rfl, hcoh, hp⟩
  rw [enc28j60BitfieldClear, if_pos ht]
  refine Machine.dwp_bind.mpr (L.does_checkBank hP hs ⟨rfl, hcoh, hp⟩ fun s hs hcoh hp hsel ↦ ?_)
  have hbank' : reg = ECON1 → (touch reg d).bank ≠ .common →
      (touch reg d).bank.bits &&& ~~~mask.setWidth 2 = (touch reg d).bank.bits := by
    rintro rfl
    exact hbank rfl
  generalize touch reg d = d at hcoh hbank' ⊢
  have stable : B.Stable fun c ↦ (Coherent B.device d c ∧ Selected B.device reg c) ∧ P c :=
    (L.stable_coherent.and L.stable_selected).and hP.1
  refine Machine.dwp_bind.mpr (Setting.does_csSelect stable hs ⟨⟨hcoh, hsel⟩, hp⟩ fun c hc ↦ ?_)
  refine Machine.dwp_bind.mpr (Setting.does_clear ⟨hr, by rw [ht]; decide, .inl rfl⟩ ht stable rfl
    hc fun c hc ↦ ?_)
  obtain ⟨hg, hq⟩ := h c hc.2 hc.1.2
  refine ⟨hc.1.2, hg, Setting.does_csDeselect (L.stable_coherent.and hQ) ⟨?_, hq⟩
    fun c hc ↦ ⟨rfl, rfl, hc⟩⟩
  by_cases hd : d.bank = .common
  · exact .inl hd
  have hb := L.clearBits (reg.cell 0) mask c
  rw [hc.1.1.resolve_left hd] at hb
  refine .inr (hb.trans (ite_eq_right_iff.mpr fun he ↦ hbank' ?_ hd))
  exact (registerMap_econ1 reg hr (by rw [ht]; decide)).1.mp he

end Bitfields

end Lawful

end Enc28j60.Banking
