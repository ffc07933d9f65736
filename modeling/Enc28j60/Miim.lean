import Enc28j60.Transfers

namespace Enc28j60.Miim

open Interaction RegisterMap SpiSlave Port LowLayer Access Banking

variable {C E : Type} {B : Setting C E} {d : Enc28j60T} {reg : RegT}

theorem registerMap_phy : ∀ r ∈ registerMap, r.type = .phyR → r.bank = .common := by decide

def Busy (v : Byte) : Prop := v.getLsbD 0 = true

theorem busy_get {n : ℕ} (v : BitVec n) : MistatReg8.busy.get v = (v.getLsbD 0).toNat := by
  simp [MistatReg8.busy, Field.get, BitVec.getLsbD, Nat.testBit_zero]
  rcases Nat.mod_two_eq_zero_or_one v.toNat with h | h <;> simp [h]

theorem busy_setWidth (v : Byte) : MistatReg8.busy.get (v.setWidth 16) = 1 ↔ Busy v := by
  rw [busy_get, BitVec.getLsbD_setWidth, Busy]
  cases v.getLsbD 0 <;> decide

theorem busy_word (dummy v : Byte) : MistatReg8.busy.get (word dummy v) = 1 ↔ Busy v := by
  rw [busy_get, getLsbD_word, if_pos (by decide), Busy]
  cases v.getLsbD 0 <;> decide

/-- What a poll of `MISTAT` may answer while `W n` holds. -/
def Answer (B : Setting C E) (W : ℕ → C → Prop) (Q : C → Prop) (n : ℕ) (v : Byte) (c : C) : Prop :=
  (Busy v → ∃ k, (B.tot → k < n) ∧ W k c) ∧ (¬Busy v → Q c)

theorem stable_answer {W : ℕ → C → Prop} {Q : C → Prop} (hW : ∀ n, B.Stable (W n))
    (hQ : B.Stable Q) (n : ℕ) (v : Byte) : B.Stable (Answer B W Q n v) := by
  rintro e c ⟨hb, hd⟩
  refine ⟨fun hv ↦ ?_, fun hv ↦ hQ e c (hd hv)⟩
  obtain ⟨k, hk, hw⟩ := hb hv
  exact ⟨k, hk, hW k e c hw⟩

theorem writeReg_phy (ht : reg.type = .phyR) (value : Word) :
    enc28j60WriteReg reg value = (do
      checkBank reg
      csSelect
      writePhyR reg value
      csDeselect) := by
  unfold enc28j60WriteReg
  rw [ht]

theorem readReg_phy (ht : reg.type = .phyR) : enc28j60ReadReg reg = (do
    checkBank reg
    csSelect
    let v ← readPhyR reg
    csDeselect
    pure v) := by
  unfold enc28j60ReadReg
  rw [ht]

theorem coherent_writeCell (L : Lawful B) {a : BitVec 5} (ha : a < 0x1b) {b : Byte} {c : C}
    (h : Coherent B.device d c) :
    Coherent B.device d (B.device.writeCell (cell (B.device.bsel c) a) b c) := by
  have hb := L.writeCell (cell (B.device.bsel c) a) b c
  rw [if_neg] at hb
  · exact h.imp_right hb.trans
  · rw [cell, if_neg (by simpa using ha)]
    rintro he
    have he' : a = 0x1f := congrArg Prod.snd he
    rw [he'] at ha
    exact absurd ha (by decide)

/-- The loop at the end of a PHY write. Its first poll selects the bank of `MISTAT`. -/
theorem does_awaitWrite (L : Lawful B) {Q : C → Prop} {W : ℕ → C → Prop}
    {Q' : Word → Enc28j60T → Bus C → Prop} (hW : ∀ n, Bankable B (W n)) (hQ : B.Stable Q)
    (hpoll : ∀ n c, W n c → Selected B.device MISTAT c →
      B.guard.read ⟨.readControlRegister, MISTAT, 0⟩ c ∧
      Answer B W Q n (B.device.readCell (MISTAT.cell 0) c).1
        (B.device.readCell (MISTAT.cell 0) c).2)
    {s : Bus C} {n : ℕ} (hs : Fresh s.window) (h : At B d (W n) d s.chip)
    (hQ' : ∀ v s', Coherent B.device (touch MISTAT d) s'.chip → Q s'.chip →
      Q' v (touch MISTAT d) s') :
    B.Does (Driver.doWhile (do
        let state ← enc28j60ReadReg MISTAT
        csDeselect
        csSelect
        pure state)
      fun state ↦ MistatReg8.busy.get state = 1) Q' d s := by
  have hanswer (n : ℕ) (b : Byte) := stable_answer (fun n ↦ (hW n).1) hQ n b
  refine Machine.dwp_doWhile (fun n e s ↦ Fresh s.window ∧
    touch MISTAT e = touch MISTAT d ∧ At B e (W n) e s.chip) n ⟨hs, rfl, h⟩ ?_
  rintro n e s ⟨hs, he, hat⟩
  have hread := L.spec_readReg (d := e) (show MISTAT ∈ registerMap by decide) (by decide) (hW n).opens
    (R := Answer B W Q n) (Q := fun v c ↦ ∃ b : Byte, v = b.setWidth 16 ∧ Answer B W Q n b c)
    (hanswer n) (fun v e c ⟨b, hb, h⟩ ↦ ⟨b, hb, hanswer n b e c h⟩)
    (hpoll n) (fun _ b c h ↦ ⟨b, rfl, h⟩) (fun hl ↦ absurd hl (by decide))
  rw [he] at hread
  refine Machine.dwp_bind.mpr (Machine.dwp_mono (hread e s hs hat) ?_)
  rintro v e' s' ⟨hw, rfl, hcoh, b, rfl, hb⟩
  have hst : B.Stable fun c ↦ Coherent B.device (touch MISTAT d) c ∧ Answer B W Q n b c :=
    L.stable_coherent.and (hanswer n b)
  refine Machine.dwp_bind.mpr (Setting.does_csDeselect hst ⟨hcoh, hb⟩ fun c hc ↦ ?_)
  refine Machine.dwp_bind.mpr (Setting.does_csSelect hst (.inl rfl) hc fun c hc ↦ ?_)
  refine Machine.dwp_pure.mpr ⟨fun ha ↦ ?_, fun ha ↦ ?_⟩
  · obtain ⟨k, hk, hwk⟩ := hc.2.1 ((busy_setWidth b).mp (of_decide_eq_true ha))
    exact ⟨k, hk, .inr rfl, rfl, rfl, hc.1, hwk⟩
  · have hdone : ¬Busy b := fun hb ↦ of_decide_eq_false ha ((busy_setWidth b).mpr hb)
    exact hQ' _ _ hc.1 (hc.2.2 hdone)

/-- A write of a PHY register starts without selecting a bank, so its three writes go to
addresses `0x14`, `0x16` and `0x17` of whichever bank is selected. -/
theorem spec_writePhy (L : Lawful B) (hr : reg ∈ registerMap) (ht : reg.type = .phyR)
    {value : Word} {P F G Q : C → Prop} {W : ℕ → C → Prop} (hP : B.Stable P)
    (hP₁ : B.Stable F) (hP₂ : B.Stable G) (hW : ∀ n, Bankable B (W n)) (hQ : B.Stable Q)
    (h₀ : ∀ c, Coherent B.device d c → P c →
      B.guard.write ⟨.writeControlRegister, MIREGADR, 0⟩ reg.regAddr c ∧
      F (B.device.writeCell (cell (B.device.bsel c) 0x14) reg.regAddr c))
    (h₁ : ∀ c, Coherent B.device d c → F c →
      B.guard.write ⟨.writeControlRegister, MIWRL, 0⟩ (value.setWidth 8) c ∧
      G (B.device.writeCell (cell (B.device.bsel c) 0x16) (value.setWidth 8) c))
    (h₂ : ∀ c, Coherent B.device d c → G c →
      B.guard.write ⟨.writeControlRegister, MIWRL, 1⟩ ((value >>> 8).setWidth 8) c ∧
      ∃ n, W n (B.device.writeCell (cell (B.device.bsel c) 0x17) ((value >>> 8).setWidth 8) c))
    (hpoll : ∀ n c, W n c → Selected B.device MISTAT c →
      B.guard.read ⟨.readControlRegister, MISTAT, 0⟩ c ∧
      Answer B W Q n (B.device.readCell (MISTAT.cell 0) c).1
        (B.device.readCell (MISTAT.cell 0) c).2) :
    B.Spec (At B d P) (enc28j60WriteReg reg value) fun _ ↦ At B (touch MISTAT d) Q := by
  rintro d s hs ⟨rfl, hcoh, hp⟩
  have hcommon := registerMap_phy reg hr ht
  have htouch : touch reg d = d := if_pos hcommon
  have stable {T : C → Prop} (hT : B.Stable T) : B.Stable fun c ↦ Coherent B.device d c ∧ T c :=
    L.stable_coherent.and hT
  have addressed {r : RegT} {off : Byte} (h : r = MIREGADR ∧ off = 0 ∨ r = MIWRL ∧ off < 2) :
      Addressed r off := by
    obtain ⟨rfl, rfl⟩ | ⟨rfl, ho⟩ := h
    · exact ⟨by decide, by decide, .inl rfl⟩
    · have ho' : off = 0 ∨ off = 1 := by
        revert ho
        revert off
        decide
      exact ⟨by decide, by decide, ho'.imp_right fun h ↦ ⟨h, rfl⟩⟩
  rw [writeReg_phy ht]
  refine Machine.dwp_bind.mpr (L.does_checkBank (opens_common hcommon hP) hs ⟨rfl, hcoh, hp⟩
    fun s hs hcoh hp _ ↦ ?_)
  rw [htouch] at hcoh ⊢
  refine Machine.dwp_bind.mpr (Setting.does_csSelect (stable hP) hs ⟨hcoh, hp⟩ fun c hc ↦
    Machine.dwp_bind.mpr (Machine.dwp_bind.mpr ?_))
  refine Setting.does_write (addressed (.inl ⟨rfl, rfl⟩)) (stable hP) rfl hc fun c hc ↦ ?_
  obtain ⟨hg, hp₁⟩ := h₀ c hc.1 hc.2
  refine ⟨hg, Machine.dwp_bind.mpr (Setting.does_csDeselect (stable hP₁)
    ⟨coherent_writeCell L (by decide) hc.1, hp₁⟩ fun c hc ↦ ?_)⟩
  refine Machine.dwp_bind.mpr (Setting.does_csSelect (stable hP₁) (.inl rfl) hc fun c hc ↦ ?_)
  refine Machine.dwp_bind.mpr
    (Setting.does_write (addressed (.inr ⟨rfl, by decide⟩)) (stable hP₁) rfl hc fun c hc ↦ ?_)
  obtain ⟨hg, hp₂⟩ := h₁ c hc.1 hc.2
  refine ⟨hg, Machine.dwp_bind.mpr (Setting.does_csDeselect (stable hP₂)
    ⟨coherent_writeCell L (by decide) hc.1, hp₂⟩ fun c hc ↦ ?_)⟩
  refine Machine.dwp_bind.mpr (Setting.does_csSelect (stable hP₂) (.inl rfl) hc fun c hc ↦ ?_)
  refine Machine.dwp_bind.mpr
    (Setting.does_write (addressed (.inr ⟨rfl, by decide⟩)) (stable hP₂) rfl hc fun c hc ↦ ?_)
  obtain ⟨hg, n, hw⟩ := h₂ c hc.1 hc.2
  refine ⟨hg, Machine.dwp_bind.mpr (Setting.does_csDeselect (stable (hW n).1)
    ⟨coherent_writeCell L (by decide) hc.1, hw⟩ fun c hc ↦ ?_)⟩
  refine Machine.dwp_bind.mpr (Setting.does_csSelect (stable (hW n).1) (.inl rfl) hc fun c hc ↦ ?_)
  refine Machine.dwp_bind.mpr (does_awaitWrite L hW hQ hpoll (.inr rfl) ⟨rfl, hc⟩
    fun v s hcoh hq ↦ ?_)
  exact Machine.dwp_pure.mpr (Setting.does_csDeselect (L.stable_coherent.and hQ) ⟨hcoh, hq⟩
    fun c hc ↦ ⟨rfl, rfl, hc⟩)

/-- The loop in the middle of a PHY read. -/
theorem does_awaitRead (L : Lawful B) {V : C → Prop} {W : ℕ → C → Prop}
    {Q' : Word → Enc28j60T → Bus C → Prop} (hW : ∀ n, B.Stable (W n)) (hV : B.Stable V)
    (hpoll : ∀ n c, B.device.bsel c = 3 → W n c →
      B.guard.read ⟨.readControlRegister, MISTAT, 0⟩ c ∧
      Answer B W V n (B.device.readCell (MISTAT.cell 0) c).1
        (B.device.readCell (MISTAT.cell 0) c).2)
    {s : Bus C} {n : ℕ} (hs : Fresh s.window) (hb : B.device.bsel s.chip = 3)
    (h : W n s.chip) (hQ' : ∀ v s', V s'.chip → s'.window = .high → Q' v d s') :
    B.Does (Driver.doWhile (do
        csSelect
        let state ← read2bytes ⟨.readControlRegister, MISTAT, 0⟩
        csDeselect
        pure state)
      fun state ↦ MistatReg8.busy.get state = 1) Q' d s := by
  have hst (n : ℕ) : B.Stable fun c ↦ B.device.bsel c = 3 ∧ W n c := (L.stable_bsel 3).and (hW n)
  refine Machine.dwp_doWhile (fun n e s ↦ Fresh s.window ∧ e = d ∧
    B.device.bsel s.chip = 3 ∧ W n s.chip) n ⟨hs, rfl, hb, h⟩ ?_
  rintro n e s ⟨hs, rfl, hb, hw⟩
  refine Machine.dwp_bind.mpr (Setting.does_csSelect (hst n) hs ⟨hb, hw⟩ fun c hc ↦ ?_)
  refine Machine.dwp_bind.mpr (Setting.does_readMacMii ⟨by decide, by decide, .inl rfl⟩ (by decide)
    (hst n) rfl hc fun c dummy hc ↦ ?_)
  obtain ⟨hg, ha⟩ := hpoll n c hc.1 hc.2
  have hb := (L.readCell (MISTAT.cell 0) c).trans hc.1
  refine ⟨fun _ ↦ hc.1, hg, ?_⟩
  generalize (B.device.readCell (MISTAT.cell 0) c).1 = v at ha ⊢
  refine Machine.dwp_bind.mpr (Setting.does_csDeselect
    ((L.stable_bsel 3).and (stable_answer hW hV n v)) ⟨hb, ha⟩ fun c hc ↦ ?_)
  refine Machine.dwp_pure.mpr ⟨fun hv ↦ ?_, fun hv ↦ ?_⟩
  · obtain ⟨k, hk, hwk⟩ := hc.2.1 ((busy_word dummy v).mp (of_decide_eq_true hv))
    exact ⟨k, hk, .inl rfl, rfl, hc.1, hwk⟩
  · have hdone : ¬Busy v := fun hb ↦ of_decide_eq_false hv ((busy_word dummy v).mpr hb)
    exact hQ' _ _ (hc.2.2 hdone) rfl

/-- A read of a PHY register: `W n` holds while the chip is busy, `V` once a poll has found
it done. -/
theorem spec_readPhy (L : Lawful B) (hr : reg ∈ registerMap) (ht : reg.type = .phyR)
    {P V T : C → Prop} {F G Y U : Byte → C → Prop} {W : ℕ → C → Prop} {Q : Word → C → Prop}
    (hP : Bankable B P) (hP₁ : ∀ v, B.Stable (F v)) (hP₂ : ∀ v, B.Stable (G v))
    (hW : ∀ n, Bankable B (W n)) (hV : Bankable B V) (hV₁ : ∀ v, B.Stable (Y v))
    (hT : B.Stable T) (hU : ∀ v, B.Stable (U v)) (hQ : ∀ v, B.Stable (Q v))
    (h₀ : ∀ c, B.device.bsel c = 2 → P c → B.guard.read ⟨.readControlRegister, MICMD, 0⟩ c ∧
      F (B.device.readCell (MICMD.cell 0) c).1 (B.device.readCell (MICMD.cell 0) c).2)
    (h₁ : ∀ v c, B.device.bsel c = 2 → F v c →
      B.guard.write ⟨.writeControlRegister, MIREGADR, 0⟩ reg.regAddr c ∧
      G v (B.device.writeCell (MIREGADR.cell 0) reg.regAddr c))
    (h₂ : ∀ v c, B.device.bsel c = 2 → G v c →
      B.guard.write ⟨.writeControlRegister, MICMD, 0⟩ (MicmdReg8.miird.set 1 v) c ∧
      ∃ n, W n (B.device.writeCell (MICMD.cell 0) (MicmdReg8.miird.set 1 v) c))
    (hpoll : ∀ n c, B.device.bsel c = 3 → W n c →
      B.guard.read ⟨.readControlRegister, MISTAT, 0⟩ c ∧
      Answer B W V n (B.device.readCell (MISTAT.cell 0) c).1
        (B.device.readCell (MISTAT.cell 0) c).2)
    (h₃ : ∀ c, B.device.bsel c = 2 → V c → B.guard.read ⟨.readControlRegister, MICMD, 0⟩ c ∧
      Y (B.device.readCell (MICMD.cell 0) c).1 (B.device.readCell (MICMD.cell 0) c).2)
    (h₄ : ∀ v c, B.device.bsel c = 2 → Y v c →
      B.guard.write ⟨.writeControlRegister, MICMD, 0⟩ (MicmdReg8.miird.set 0 v) c ∧
      T (B.device.writeCell (MICMD.cell 0) (MicmdReg8.miird.set 0 v) c))
    (h₅ : ∀ c, B.device.bsel c = 2 → T c → B.guard.read ⟨.readControlRegister, MIRDL, 0⟩ c ∧
      U (B.device.readCell (MIRDL.cell 0) c).1 (B.device.readCell (MIRDL.cell 0) c).2)
    (h₆ : ∀ low c, B.device.bsel c = 2 → U low c →
      B.guard.read ⟨.readControlRegister, MIRDL, 1⟩ c ∧
      Q (word (B.device.readCell (MIRDL.cell 1) c).1 low) (B.device.readCell (MIRDL.cell 1) c).2) :
    B.Spec (At B d P) (enc28j60ReadReg reg)
      fun v ↦ At B { d with bank := .bank2 } (Q v) := by
  rintro d s hs ⟨rfl, hcoh, hp⟩
  have hcommon := registerMap_phy reg hr ht
  have stable {T : C → Prop} (hT : B.Stable T) : B.Stable fun c ↦ B.device.bsel c = 2 ∧ T c :=
    (L.stable_bsel 2).and hT
  have hread {x : Cell} {c : C} (h : B.device.bsel c = 2) :
      B.device.bsel (B.device.readCell x c).2 = 2 := (L.readCell _ c).trans h
  have hwrite {r : RegT} {b : Byte} {c : C} (hx : r.cell 0 ≠ ECON1.cell 0)
      (h : B.device.bsel c = 2) : B.device.bsel (B.device.writeCell (r.cell 0) b c) = 2 := by
    rw [L.writeCell, if_neg hx]
    exact h
  have hmicmd : Addressed MICMD 0 := ⟨by decide, by decide, .inl rfl⟩
  have hbits {e : Enc28j60T} {c : C} (h : Coherent B.device { e with bank := .bank2 } c) :
      B.device.bsel c = 2 := h.resolve_left nofun
  rw [readReg_phy ht]
  refine Machine.dwp_bind.mpr (L.does_checkBank (opens_common hcommon hP.1) hs ⟨rfl, hcoh, hp⟩
    fun s hs hcoh hp _ ↦ ?_)
  rw [show touch reg d = d from if_pos hcommon] at hcoh ⊢
  refine Machine.dwp_bind.mpr (Setting.does_csSelect (L.stable_coherent.and hP.1) hs ⟨hcoh, hp⟩
    fun c hc ↦ Machine.dwp_bind.mpr (Machine.dwp_bind.mpr ?_))
  refine Machine.dwp_mono (L.spec_bankChanging hP .bank2 d ⟨.opcode, c⟩ (.inr rfl) ⟨rfl, hc.2⟩) ?_
  rintro - d' s ⟨hs, rfl, hcoh, hp⟩
  refine Machine.dwp_bind.mpr (Setting.does_csSelect (stable hP.1) (.inl hs) ⟨hbits hcoh, hp⟩
    fun c hc ↦ ?_)
  refine Machine.dwp_bind.mpr (Setting.does_readMacMii hmicmd (by decide) (stable hP.1) rfl hc
    fun c dummy hc ↦ ?_)
  obtain ⟨hg, hp₁⟩ := h₀ c hc.1 hc.2
  refine ⟨fun _ ↦ hc.1, hg, ?_⟩
  have hb := hread (x := MICMD.cell 0) hc.1
  generalize (B.device.readCell (MICMD.cell 0) c).1 = tmp at hp₁ ⊢
  rw [word_setWidth]
  refine Machine.dwp_bind.mpr (Setting.does_csDeselect (stable (hP₁ tmp)) ⟨hb, hp₁⟩ fun c hc ↦ ?_)
  refine Machine.dwp_bind.mpr (Setting.does_csSelect (stable (hP₁ tmp)) (.inl rfl) hc fun c hc ↦ ?_)
  refine Machine.dwp_bind.mpr (Setting.does_writeSelected ⟨by decide, by decide, .inl rfl⟩
    (stable (hP₁ tmp)) rfl hc fun c hc ↦ ?_)
  obtain ⟨hg, hp₂⟩ := h₁ tmp c hc.1 hc.2
  refine ⟨fun _ ↦ hc.1, hg, Machine.dwp_bind.mpr (Setting.does_csDeselect (stable (hP₂ tmp))
    ⟨hwrite (by decide) hc.1, hp₂⟩ fun c hc ↦ ?_)⟩
  refine Machine.dwp_bind.mpr (Setting.does_csSelect (stable (hP₂ tmp)) (.inl rfl) hc fun c hc ↦ ?_)
  refine Machine.dwp_bind.mpr (Setting.does_writeSelected hmicmd (stable (hP₂ tmp)) rfl hc
    fun c hc ↦ ?_)
  obtain ⟨hg, n, hw⟩ := h₂ tmp c hc.1 hc.2
  refine ⟨fun _ ↦ hc.1, hg, Machine.dwp_bind.mpr (Setting.does_csDeselect (stable (hW n).1)
    ⟨hwrite (by decide) hc.1, hw⟩ fun c hc ↦ ?_)⟩
  -- the chip is busy from here to the end of the loop
  refine Machine.dwp_bind.mpr (Machine.dwp_mono
    (L.spec_bankChanging (hW n) .bank3 _ ⟨.high, c⟩ (.inl rfl) ⟨rfl, hc.2⟩) ?_)
  rintro - d' s ⟨hs, rfl, hcoh, hw⟩
  refine Machine.dwp_bind.mpr (does_awaitRead L (fun n ↦ (hW n).1) hV.1 hpoll (.inl hs)
    (hcoh.resolve_left nofun) hw fun v s hv hs ↦ ?_)
  refine Machine.dwp_bind.mpr (Setting.does_csDeselect hV.1 hv fun c hc ↦ ?_)
  refine Machine.dwp_bind.mpr (Setting.does_csSelect hV.1 (.inl rfl) hc fun c hc ↦ ?_)
  refine Machine.dwp_bind.mpr (Machine.dwp_mono
    (L.spec_bankChanging hV .bank2 _ ⟨.opcode, c⟩ (.inr rfl) ⟨rfl, hc⟩) ?_)
  rintro - d' s ⟨hs, rfl, hcoh, hv⟩
  refine Machine.dwp_bind.mpr (Setting.does_csSelect (stable hV.1) (.inl hs) ⟨hbits hcoh, hv⟩
    fun c hc ↦ ?_)
  refine Machine.dwp_bind.mpr (Setting.does_readMacMii hmicmd (by decide) (stable hV.1) rfl hc
    fun c dummy hc ↦ ?_)
  obtain ⟨hg, hv₁⟩ := h₃ c hc.1 hc.2
  refine ⟨fun _ ↦ hc.1, hg, ?_⟩
  have hb := hread (x := MICMD.cell 0) hc.1
  generalize (B.device.readCell (MICMD.cell 0) c).1 = tmp at hv₁ ⊢
  rw [word_setWidth]
  refine Machine.dwp_bind.mpr (Setting.does_csDeselect (stable (hV₁ tmp)) ⟨hb, hv₁⟩ fun c hc ↦ ?_)
  refine Machine.dwp_bind.mpr (Setting.does_csSelect (stable (hV₁ tmp)) (.inl rfl) hc fun c hc ↦ ?_)
  refine Machine.dwp_bind.mpr (Setting.does_writeSelected hmicmd (stable (hV₁ tmp)) rfl hc
    fun c hc ↦ ?_)
  obtain ⟨hg, ht⟩ := h₄ tmp c hc.1 hc.2
  refine ⟨fun _ ↦ hc.1, hg, Machine.dwp_bind.mpr (Setting.does_csDeselect (stable hT)
    ⟨hwrite (by decide) hc.1, ht⟩ fun c hc ↦ ?_)⟩
  refine Machine.dwp_bind.mpr (Setting.does_csSelect (stable hT) (.inl rfl) hc fun c hc ↦ ?_)
  refine Machine.dwp_bind.mpr (Setting.does_readMacMii ⟨by decide, by decide, .inl rfl⟩ (by decide)
    (stable hT) rfl hc fun c dummy hc ↦ ?_)
  obtain ⟨hg, hu⟩ := h₅ c hc.1 hc.2
  refine ⟨fun _ ↦ hc.1, hg, ?_⟩
  have hb := hread (x := MIRDL.cell 0) hc.1
  generalize (B.device.readCell (MIRDL.cell 0) c).1 = low at hu ⊢
  refine Machine.dwp_bind.mpr (Setting.does_csDeselect (stable (hU low)) ⟨hb, hu⟩ fun c hc ↦ ?_)
  refine Machine.dwp_bind.mpr (Setting.does_csSelect (stable (hU low)) (.inl rfl) hc fun c hc ↦ ?_)
  refine Machine.dwp_bind.mpr (Setting.does_readMacMii ⟨by decide, by decide, .inr ⟨rfl, rfl⟩⟩
    (by decide) (stable (hU low)) rfl hc fun c dummy' hc ↦ ?_)
  obtain ⟨hg, hq⟩ := h₆ low c hc.1 hc.2
  refine ⟨fun _ ↦ hc.1, hg, Machine.dwp_pure.mpr ?_⟩
  rw [word_or_word]
  refine Machine.dwp_bind.mpr (Setting.does_csDeselect (stable (hQ _)) ⟨hread hc.1, hq⟩
    fun c hc ↦ ⟨rfl, rfl, .inr hc.1, hc.2⟩)

end Enc28j60.Miim
