import Enc28j60.Banking
import Enc28j60.Interface

namespace Enc28j60.Transfers

open Interaction RegisterMap SpiSlave Port LowLayer Interface Access Banking

variable {C E α : Type} {B : Setting C E} {d : Enc28j60T}

theorem spec_doWhile [Inhabited α] {m : Drv α} {again : α → Bool}
    {J : ℕ → Enc28j60T → C → Prop} {Q : α → Enc28j60T → C → Prop}
    (h : ∀ n, B.Spec (J n) m fun a d c ↦
      (again a = true → ∃ k, (B.tot → k < n) ∧ J k d c) ∧ (again a = false → Q a d c)) (n : ℕ) :
    B.Spec (J n) (Driver.doWhile m again) Q := by
  intro d s hs hJ
  refine Machine.dwp_doWhile (fun n d s ↦ Fresh s.window ∧ J n d s.chip) n ⟨hs, hJ⟩ ?_
  rintro n d s ⟨hs, hJ⟩
  refine Machine.dwp_mono (h n d s hs hJ) ?_
  rintro a d' s' ⟨hw, hagain, hdone⟩
  refine ⟨fun ha ↦ ?_, fun ha ↦ ⟨hw, hdone ha⟩⟩
  obtain ⟨k, hk, hJ'⟩ := hagain ha
  exact ⟨k, hk, .inl hw, hJ'⟩

theorem xfer_readBuf (D : Device C) (c : C) :
    (D.xfer (OpcodeT.readBufferMemory.toByte ||| bufferMemoryArg) ⟨.opcode, c⟩).2 =
      ⟨.readBuf, c⟩ := rfl

theorem xfer_writeBuf (D : Device C) (c : C) :
    (D.xfer (OpcodeT.writeBufferMemory.toByte ||| bufferMemoryArg) ⟨.opcode, c⟩).2 =
      ⟨.writeBuf, c⟩ := rfl

theorem spec_softReset {P Q : C → Prop} (L : Lawful B) (hP : B.Stable P) (hQ : B.Stable Q)
    (h : ∀ c, P c → B.guard.short .opcode 0xFF c ∧ Q (B.device.reset c)) :
    B.Spec (fun d' c ↦ d' = d ∧ P c) enc28j60SoftReset
      fun _ d' c ↦ d' = d ∧ B.device.bsel c = 0 ∧ Q c := by
  rintro d s hs ⟨rfl, hp⟩
  refine Machine.dwp_bind.mpr (Setting.does_csSelect hP hs hp fun c hc ↦ ?_)
  refine Machine.dwp_bind.mpr (Setting.does_sendShortCmd hP rfl hc fun c hc ↦ ?_)
  obtain ⟨hg, hq⟩ := h c hc
  refine ⟨hg, Setting.does_csDeselect ((L.stable_bsel 0).and hQ) ⟨L.reset c, hq⟩ fun c hc ↦ ?_⟩
  exact ⟨rfl, rfl, hc⟩

section Buffers

/-- The loop of `enc28j60_write_buf`: past 32767 bytes it has no end. -/
theorem spec_writeBuf {buf : ℤ → Byte} {n : Word} {P : ℕ → C → Prop} (L : Lawful B)
    (hn : B.tot → n.toNat ≤ 32767) (hP : ∀ k, B.Stable (P k))
    (h₀ : ∀ c, P 0 c → B.guard.short .opcode 0x7A c)
    (hstep : ∀ k, k < n.toNat ∨ 32767 < n.toNat → ∀ c, P k c →
      B.guard.short .writeBuf (buf (BitVec.ofNat 16 k).toInt) c ∧
      P (k + 1) (B.device.writeBuf (buf (BitVec.ofNat 16 k).toInt) c)) :
    B.Spec (At B d (P 0)) (enc28j60WriteBuf buf n)
      fun _ ↦ At B d fun c ↦ n.toNat ≤ 32767 ∧ P n.toNat c := by
  rintro d s hs ⟨rfl, hcoh, hp⟩
  have hst (k : ℕ) : B.Stable fun c ↦ Coherent B.device d c ∧ P k c := L.stable_coherent.and (hP k)
  refine Machine.dwp_bind.mpr (Setting.does_csSelect (hst 0) hs ⟨hcoh, hp⟩ fun c hc ↦ ?_)
  refine Machine.dwp_bind.mpr (Setting.does_sendShortCmd (w := .opcode) (hst 0) rfl hc fun c hc ↦ ?_)
  refine ⟨h₀ c hc.2, ?_⟩
  rw [xfer_writeBuf]
  refine Machine.dwp_bind.mpr (Machine.dwp_iterate (fun m i d' s ↦ ∃ k, i = BitVec.ofNat 16 k ∧
    (n.toNat ≤ 32767 → k ≤ n.toNat ∧ m = n.toNat - k) ∧ d' = d ∧ s.window = .writeBuf ∧
      Coherent B.device d s.chip ∧ P k s.chip) n.toNat ⟨0, rfl, fun _ ↦ ⟨by omega, rfl⟩, rfl, rfl, hc⟩ ?_)
  rintro m i d' s ⟨k, rfl, hk, rfl, hw, hc⟩
  refine Machine.dwp_ite (fun hi ↦ ?_) fun hi ↦ Machine.dwp_pure.mpr ⟨nofun, fun _ ↦ ?_⟩
  · -- as long as the count fits the counter, the counter is the count
    have hlt : k < n.toNat ∨ 32767 < n.toNat := by
      by_cases hfit : n.toNat ≤ 32767
      · have hkn := (hk hfit).1
        rw [BitVec.toInt_eq_toNat_of_lt] at hi
        · simp only [BitVec.toNat_ofNat] at hi
          omega
        · simp only [BitVec.toNat_ofNat]
          omega
      · omega
    refine Machine.dwp_bind.mpr (Setting.does_sendShortCmd (hst k) hw hc fun c hc ↦ ?_)
    obtain ⟨hg, hq⟩ := hstep k hlt c hc.2
    refine ⟨hg, Machine.dwp_pure.mpr ⟨fun _ ↦ ⟨n.toNat - (k + 1), ?_, k + 1, ?_⟩, nofun⟩⟩
    · intro ht
      have hk' := hk (hn ht)
      have hfit := hn ht
      omega
    · refine ⟨?_, fun hfit ↦ ⟨?_, rfl⟩, rfl, rfl, hc.1.imp_right (L.writeBuf _ c).trans, hq⟩
      · rw [BitVec.ofNat_add]
        rfl
      · omega
  · have hfit : n.toNat ≤ 32767 := by
      have hmax := BitVec.toInt_lt (x := BitVec.ofNat 16 k)
      omega
    have hkn : k = n.toNat := by
      have hk' := (hk hfit).1
      rw [BitVec.toInt_eq_toNat_of_lt] at hi
      · simp only [BitVec.toNat_ofNat] at hi
        omega
      · simp only [BitVec.toNat_ofNat]
        omega
    subst hkn
    exact Setting.does_csDeselect (hst n.toNat) hc fun c hc ↦ ⟨rfl, rfl, hc.1, hfit, hc.2⟩

/-- The memory at `buf` once the bytes `l` have been stored there. -/
def overlay (l : List Byte) (buf : ℕ → Byte) : ℕ → Byte := fun k ↦ l.getD k (buf k)

theorem overlay_nil (buf : ℕ → Byte) : overlay [] buf = buf := by
  funext k
  simp [overlay]

theorem overlay_append (l : List Byte) (b : Byte) (buf : ℕ → Byte) :
    overlay (l ++ [b]) buf = fun k ↦ if k = l.length then b else overlay l buf k := by
  funext k
  simp only [overlay, List.getD_eq_getElem?_getD]
  split
  next h => simp [h]
  next h =>
    rcases Nat.lt_or_gt_of_ne h with h | h
    · rw [List.getElem?_append_left h]
    · rw [List.getElem?_eq_none (by simp; omega), List.getElem?_eq_none (by omega)]

theorem spec_readBuf {buf : ℕ → Byte} {n : Word} {P : List Byte → C → Prop} (L : Lawful B)
    (hP : ∀ l, B.Stable (P l)) (h₀ : ∀ c, P [] c → B.guard.short .opcode 0x3A c)
    (hstep : ∀ l, l.length < n.toNat → ∀ c, P l c → B.guard.short .readBuf 0xFF c ∧
      P (l ++ [(B.device.readBuf c).1]) (B.device.readBuf c).2) :
    B.Spec (At B d (P [])) (enc28j60ReadBuf buf n)
      fun r ↦ At B d fun c ↦ ∃ l, l.length = n.toNat ∧ r = overlay l buf ∧ P l c := by
  rintro d s hs ⟨rfl, hcoh, hp⟩
  have hst (l : List Byte) : B.Stable fun c ↦ Coherent B.device d c ∧ P l c :=
    L.stable_coherent.and (hP l)
  refine Machine.dwp_bind.mpr (Setting.does_csSelect (hst []) hs ⟨hcoh, hp⟩ fun c hc ↦ ?_)
  refine Machine.dwp_bind.mpr (Setting.does_sendShortCmd (w := .opcode) (hst []) rfl hc fun c hc ↦ ?_)
  refine ⟨h₀ c hc.2, ?_⟩
  rw [xfer_readBuf]
  refine Machine.dwp_bind.mpr (Machine.dwp_iterate (fun m r d' s ↦ ∃ l : List Byte,
    r = (BitVec.ofNat 16 l.length, overlay l buf) ∧ l.length ≤ n.toNat ∧ m = n.toNat - l.length ∧
      d' = d ∧ s.window = .readBuf ∧ Coherent B.device d s.chip ∧ P l s.chip) n.toNat
    ⟨[], by rw [overlay_nil]; rfl, by simp, rfl, rfl, rfl, hc⟩ ?_)
  rintro m r d' s ⟨l, rfl, hl, rfl, rfl, hw, hc⟩
  have hnat : (BitVec.ofNat 16 l.length).toNat = l.length := by
    simp only [BitVec.toNat_ofNat]
    omega
  refine Machine.dwp_ite (fun hi ↦ ?_) fun hi ↦ Machine.dwp_pure.mpr ⟨nofun, fun _ ↦ ?_⟩
  · have hlt : l.length < n.toNat := by
      rw [BitVec.lt_def, hnat] at hi
      exact hi
    refine Machine.dwp_bind.mpr (Setting.does_sendShortCmd (hst l) hw hc fun c hc ↦ ?_)
    obtain ⟨hg, hq⟩ := hstep l hlt c hc.2
    refine ⟨hg, Machine.dwp_pure.mpr ⟨fun _ ↦ ⟨n.toNat - (l.length + 1), fun _ ↦ by omega,
      l ++ [(B.device.readBuf c).1], ?_, ?_, ?_, rfl, rfl,
      hc.1.imp_right (L.readBuf c).trans, hq⟩, nofun⟩⟩
    · rw [overlay_append, hnat, List.length_append, BitVec.ofNat_add]
      rfl
    · simp only [List.length_append, List.length_singleton]
      omega
    · simp only [List.length_append, List.length_singleton]
  · have hln : l.length = n.toNat := by
      rw [BitVec.lt_def, hnat] at hi
      omega
    refine Machine.dwp_bind.mpr (Setting.does_csDeselect (hst l) hc fun c hc ↦ ?_)
    exact ⟨rfl, rfl, hc.1, l, hln, rfl, hc.2⟩

end Buffers

end Enc28j60.Transfers
