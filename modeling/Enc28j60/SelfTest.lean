import Enc28j60.Quiet

namespace Enc28j60.SelfTest

open Interaction RegisterMap Port LowLayer Access Banking DataSheet Transfers Quiet

variable {α : Type} {tot : Prop} {si : Silicon} {c c₀ : Chip} {d : Enc28j60T} {reg : RegT}

/-- A register that holds what was last written to it. -/
def Storing (r : RegT) : Prop := Writable r ∧ r ∉ [ECON2, EPKTCNT, ERXWRPTL]

instance : DecidablePred Storing := fun _ ↦ inferInstanceAs (Decidable (_ ∧ _))

theorem registerMap_storing : ∀ r ∈ registerMap, r.type ≠ .phyR →
    r ∉ [ECON2, EPKTCNT, ERXWRPTL] →
    r.cell 0 ∉ [ECON2.cell 0, EPKTCNT.cell 0, ERXWRPTL.cell 0, ERXWRPTL.cell 1] ∧
    (r.length = 2 → r.cell 1 ≠ r.cell 0 ∧
      r.cell 1 ∉ [ECON2.cell 0, EPKTCNT.cell 0, ERXWRPTL.cell 0, ERXWRPTL.cell 1]) := by
  decide

theorem regs_place (h : Storing reg) (v : Word) (y : Cell) : (place si reg v c).regs y =
    if reg.length = 2 ∧ y = reg.cell 1 then (v >>> 8).setWidth 8
    else if y = reg.cell 0 then v.setWidth 8 else c.regs y := by
  obtain ⟨h₀, h₁⟩ := registerMap_storing reg h.1.1 h.1.2.1 h.2
  have hx₀ : reg.cell 0 ≠ ECON2.cell 0 := fun he ↦ h₀ (by rw [he]; exact List.mem_cons_self)
  unfold place
  by_cases hl : reg.length = 2
  · have hx₁ : reg.cell 1 ≠ ECON2.cell 0 := fun he ↦ (h₁ hl).2 (by rw [he]; exact List.mem_cons_self)
    simp only [hl, if_true, true_and, regs_writeCell hx₁, regs_writeCell hx₀]
  · simp only [hl, if_false, false_and, regs_writeCell hx₀]

theorem peek_plain {x : Cell}
    (h : x ∉ [ECON2.cell 0, EPKTCNT.cell 0, ERXWRPTL.cell 0, ERXWRPTL.cell 1]) (c : Chip) :
    c.peek x = c.regs x := by
  simp only [List.mem_cons, List.not_mem_nil, or_false, not_or] at h
  rw [Chip.peek, if_neg h.2.1, if_neg h.2.2.1, if_neg h.2.2.2]

theorem fetch_place (h : Storing reg) (v : Word) : fetch reg (place si reg v c) =
    if reg.length = 2 then v else (v.setWidth 8 : Byte).setWidth 16 := by
  obtain ⟨h₀, h₁⟩ := registerMap_storing reg h.1.1 h.1.2.1 h.2
  unfold fetch
  by_cases hl : reg.length = 2
  · rw [if_pos hl, if_pos hl, peek_plain h₀, peek_plain (h₁ hl).2, regs_place h, regs_place h,
      if_pos ⟨hl, rfl⟩, if_neg fun he ↦ (h₁ hl).1 he.2.symm, if_pos rfl, word_bytes]
  · rw [if_neg hl, if_neg hl, peek_plain h₀, regs_place h, if_neg fun he ↦ hl he.1, if_pos rfl]

/-- A passed test goes on. -/
theorem spec_reportTest {P : Enc28j60T → Chip → Prop} {Q : α → Enc28j60T → Chip → Prop}
    {msg : String} {passed : Bool} {f : Unit → Drv α} (hp : passed = true)
    (hP : ∀ d, (bench tot si).Stable (P d)) (hf : (bench tot si).Spec P (f ()) Q) :
    (bench tot si).Spec P (reportTest msg passed >>= f) Q := by
  subst hp
  refine fun d s hs h ↦ Machine.dwp_bind.mpr (Machine.dwp_bind.mpr (Setting.does_uart (hP d) h
    fun s' hw h' ↦ Setting.does_uart (hP d) h' fun s'' hw' h'' ↦ hf d s'' ?_ h''))
  rwa [hw', hw]

section Pointers

theorem ptr_place (h : Storing reg) (hl : reg.length = 2) (v : Word) :
    (place si reg v c).ptr reg = v.toNat % memSize := by
  obtain ⟨-, h₁⟩ := registerMap_storing reg h.1.1 h.1.2.1 h.2
  rw [Chip.ptr, regs_place h, regs_place h, if_pos ⟨hl, rfl⟩,
    if_neg fun he ↦ (h₁ hl).1 he.2.symm, if_pos rfl, word_bytes]

theorem ptr_place_of_ne {r : RegT} (h : Storing reg) (v : Word)
    (h₀ : r.cell 0 ≠ reg.cell 0 ∧ r.cell 0 ≠ reg.cell 1)
    (h₁ : r.cell 1 ≠ reg.cell 0 ∧ r.cell 1 ≠ reg.cell 1) :
    (place si reg v c).ptr r = c.ptr r := by
  rw [Chip.ptr, regs_place h, regs_place h, if_neg fun he ↦ h₁.2 he.2, if_neg h₁.1,
    if_neg fun he ↦ h₀.2 he.2, if_neg h₀.1, Chip.ptr]

theorem regs_setPtr (r : RegT) (a : ℕ) (y : Cell) : (c.setPtr r a).regs y =
    if y = r.cell 1 then ((BitVec.ofNat 16 a : Word) >>> 8).setWidth 8
    else if y = r.cell 0 then (BitVec.ofNat 16 a : Word).setWidth 8 else c.regs y := by
  rw [Chip.setPtr, regs_setReg, regs_setReg]

theorem ptr_setPtr {r : RegT} (h : r.cell 0 ≠ r.cell 1) {a : ℕ} (ha : a < memSize) :
    (c.setPtr r a).ptr r = a := by
  have hm : memSize = 8192 := rfl
  rw [Chip.ptr, regs_setPtr, regs_setPtr, if_pos rfl, if_neg h, if_pos rfl, word_bytes,
    BitVec.toNat_ofNat]
  rw [hm] at ha ⊢
  omega

theorem ptr_setPtr_of_ne {r r' : RegT} (a : ℕ) (h₀ : r'.cell 0 ≠ r.cell 0 ∧ r'.cell 0 ≠ r.cell 1)
    (h₁ : r'.cell 1 ≠ r.cell 0 ∧ r'.cell 1 ≠ r.cell 1) : (c.setPtr r a).ptr r' = c.ptr r' := by
  rw [Chip.ptr, regs_setPtr, regs_setPtr, if_neg h₁.2, if_neg h₁.1, if_neg h₀.2, if_neg h₀.1,
    Chip.ptr]

theorem mem_place (r : RegT) (v : Word) : (place si r v c).mem = c.mem := by
  unfold place
  simp only
  split
  · rw [mem_writeCell, mem_writeCell]
  · rw [mem_writeCell]

theorem mem_phyWrite (a : Byte) (v : Word) : (phyWrite si a v c).mem = c.mem := by
  have h : (place si MIWRL v (c.writeCell si (MIREGADR.cell 0) a)).mem =
      (c.writeCell si (MIREGADR.cell 0) a).mem := mem_place MIWRL v
  exact h.trans (mem_writeCell _ _)

theorem mem_phyRead (a : Byte) : (phyRead si a c).mem = c.mem := by
  have h : ((c.writeCell si (MIREGADR.cell 0) a).writeCell si (MICMD.cell 0)
      (MicmdReg8.miird.set 1 (c.peek (MICMD.cell 0)))).mem = c.mem :=
    (mem_writeCell _ _).trans (mem_writeCell _ _)
  rw [phyRead, mem_writeCell]
  exact h

theorem autoinc_place (h : Storing reg) (v : Word) (hx₀ : reg.cell 0 ≠ ECON2.cell 0)
    (hx₁ : reg.cell 1 ≠ ECON2.cell 0) : (place si reg v c).autoinc = c.autoinc := by
  rw [Chip.autoinc, Chip.econ2, regs_place h, if_neg fun he ↦ hx₁ he.2.symm, if_neg hx₀.symm]
  rfl

end Pointers

section Probe

/-- The first `k` test bytes stand at `0x1000`. -/
def probed (m : ℕ → Byte) (k : ℕ) : ℕ → Byte :=
  fun a ↦ if 0x1000 ≤ a ∧ a < 0x1000 + k then testVals (a - 0x1000) else m a

def Writing (m : ℕ → Byte) (k : ℕ) (x : Chip) : Prop :=
  x.autoinc = true ∧ x.ptr ERXNDL = 0xfff ∧ k ≤ 4 ∧ x.ptr EWRPTL = 0x1000 + k ∧
    x.mem = probed m k

def Reading (m : ℕ → Byte) (l : List Byte) (x : Chip) : Prop :=
  x.autoinc = true ∧ x.ptr ERXNDL = 0xfff ∧ l.length ≤ 4 ∧ x.ptr ERDPTL = 0x1000 + l.length ∧
    x.mem = probed m 4 ∧ l = (List.range l.length).map testVals

variable {m : ℕ → Byte}

theorem probed_zero : probed m 0 = m := by
  funext a
  exact if_neg (by omega)

theorem probed_succ (k : ℕ) :
    Function.update (probed m k) (0x1000 + k) (testVals k) = probed m (k + 1) := by
  funext a
  rw [Function.update_apply]
  unfold probed
  split
  next h => rw [if_pos (by omega), h, Nat.add_sub_cancel_left]
  next h =>
    have hiff : 0x1000 ≤ a ∧ a < 0x1000 + k ↔ 0x1000 ≤ a ∧ a < 0x1000 + (k + 1) := by omega
    simp only [hiff]

theorem autoinc_setPtr {r : RegT} (a : ℕ) (h₀ : r.cell 0 ≠ ECON2.cell 0)
    (h₁ : r.cell 1 ≠ ECON2.cell 0) : (c.setPtr r a).autoinc = c.autoinc := by
  rw [Chip.autoinc, Chip.econ2, regs_setPtr, if_neg h₁.symm, if_neg h₀.symm]
  rfl

theorem Writing.step {k : ℕ} {x : Chip} (hk : k < 4) (h : Writing m k x) :
    Writing m (k + 1) (x.writeBuf (testVals k)) := by
  obtain ⟨hauto, hnd, -, hptr, hmem⟩ := h
  have hm : memSize = 8192 := rfl
  rw [Chip.writeBuf]
  simp only [hauto, if_true, hptr]
  refine ⟨(autoinc_setPtr _ (by decide) (by decide)).trans hauto,
    (ptr_setPtr_of_ne _ (by decide) (by decide)).trans hnd, hk, ?_, ?_⟩
  · rw [ptr_setPtr (by decide) (Nat.mod_lt _ (by omega)), hm]
    omega
  · rw [← probed_succ, ← hmem]
    rfl

theorem Reading.step {l : List Byte} {x : Chip} (hl : l.length < 4) (h : Reading m l x) :
    Reading m (l ++ [x.readBuf.1]) x.readBuf.2 := by
  obtain ⟨hauto, hnd, -, hptr, hmem, hval⟩ := h
  have hm : memSize = 8192 := rfl
  have hne : ¬0x1000 + l.length = 0xfff := by omega
  rw [Chip.readBuf]
  simp only [hauto, if_true, hptr, hnd, hne, if_false]
  have hlen : (l ++ [x.mem (0x1000 + l.length)]).length = l.length + 1 := by simp
  refine ⟨(autoinc_setPtr _ (by decide) (by decide)).trans hauto,
    (ptr_setPtr_of_ne _ (by decide) (by decide)).trans hnd, by omega, ?_, hmem, ?_⟩
  · rw [ptr_setPtr (by decide) (Nat.mod_lt _ (by omega)), hlen, hm]
    omega
  · have hb : x.mem (0x1000 + l.length) = testVals l.length := by
      rw [hmem, probed, if_pos (by omega), Nat.add_sub_cancel_left]
    rw [hlen, hb, List.range_succ, List.map_append, ← hval]
    rfl

end Probe

theorem autoinc_set : ∀ v : Byte,
    ((Econ2Reg.autoinc.set 1 (v.setWidth 16)).setWidth 8 &&& ~~~0x40 : Byte).getLsbD 7 = true := by
  decide

theorem autoinc_place_econ2 (v : Byte) :
    (place si ECON2 (Econ2Reg.autoinc.set 1 (v.setWidth 16)) c).autoinc = true := by
  rw [Chip.autoinc, Chip.econ2]
  change ((c.writeCell si (ECON2.cell 0) _).regs (ECON2.cell 0)).getLsbD 7 = true
  rw [regs_econ2, if_pos rfl, autoinc_set]

/-- The self-test passes, and leaves the chip reset, with its four bytes in the buffer. -/
theorem spec_llTest : (bench tot si).Spec (At (bench tot si) d (Same c₀)) llTest
    fun _ ↦ At (bench tot si) { d with bank := .bank0 } fun c ↦
      ∃ x : Chip, x.mem = probed c₀.mem 4 ∧ Same (x.reset si) c := by
  have hst {d : Enc28j60T} {P : Chip → Prop} (hP : (bench tot si).Stable P) (d' : Enc28j60T) :
      (bench tot si).Stable (At (bench tot si) d P d') := (bench_lawful tot si).stable_at hP d'
  have hval (r : RegT) (v : Word) (h : Storing r) (hl : r.length = 2) (c : Chip) :
      fetch r (place si r v c) = v := (fetch_place h v).trans (if_pos hl)
  unfold llTest
  refine fun e s hs h ↦ Machine.dwp_bind.mpr (Setting.does_uartInit (hst stable_same e) h
    fun s' hw h' ↦ ?_)
  refine (?_ : (bench tot si).Spec (At (bench tot si) d (Same c₀)) _ _) e s' (hw ▸ hs) h'
  refine (spec_place (by decide) 0x1234).bind fun _ ↦ (spec_fetch (by decide)).bind fun v ↦
    spec_at_pure fun hv ↦ ?_
  rw [hval _ _ (by decide) rfl] at hv
  refine spec_reportTest (decide_eq_true hv) (hst stable_same) ?_
  refine spec_clkrdy.bind fun _ ↦ (spec_place (by decide) 0x1234).bind fun _ ↦
    (spec_fetch (by decide)).bind fun v ↦ spec_at_pure fun hv ↦ ?_
  rw [hval _ _ (by decide) rfl] at hv
  refine spec_reportTest (decide_eq_true hv) (hst stable_same) ?_
  -- the last access has left bank 2 selected, where the PHY write needs it
  refine (spec_phyWrite (by decide) rfl rfl 0x3883).bind fun _ ↦
    (spec_phyRead (by decide) rfl).bind fun v ↦ spec_at_pure fun hv ↦ ?_
  rw [fetch_phyRead, phy_phyWrite, Function.update_self] at hv
  refine spec_reportTest (decide_eq_true (by rw [hv])) (hst stable_same) ?_
  refine (spec_fetch (by decide)).bind fun v ↦ spec_at_pure fun hv ↦ ?_
  refine (spec_place (by decide) _).bind fun _ ↦ (spec_place (by decide) 0x00).bind fun _ ↦
    (spec_place (by decide) 0xfff).bind fun _ ↦ (spec_place (by decide) 0x1000).bind fun _ ↦ ?_
  subst hv
  rw [fetch, if_neg (by decide)]
  have hauto {r : RegT} {c : Chip} (v : Word) (h : Storing r) (h₀ : r.cell 0 ≠ ECON2.cell 0)
      (h₁ : r.cell 1 ≠ ECON2.cell 0) (hc : c.autoinc = true) : (place si r v c).autoinc = true :=
    (autoinc_place h v h₀ h₁).trans hc
  generalize hx : place si EWRPTL 0x1000 _ = x
  have hx₀ : Writing c₀.mem 0 x := by
    subst hx
    refine ⟨hauto _ (by decide) (by decide) (by decide) (hauto _ (by decide) (by decide) (by decide)
      (hauto _ (by decide) (by decide) (by decide) (autoinc_place_econ2 _))), ?_, by omega,
      ptr_place (by decide) rfl _, ?_⟩
    · exact (ptr_place_of_ne (by decide) _ (by decide) (by decide)).trans
        (ptr_place (by decide) rfl _)
    · simp only [mem_place, mem_phyRead, mem_phyWrite, probed_zero]
  clear hx
  refine ((spec_writeBuf (f := fun i ↦ testVals i.toNat) (n := 4) (W := Writing c₀.mem)
    (by decide) (fun _ _ h ↦ h.1) fun k hk x h ↦ h.step hk).mono
    (fun _ _ h ↦ ⟨h.1, h.2.1, x, hx₀, h.2.2⟩) fun _ _ _ h ↦ h).bind fun _ ↦
    spec_at_exists fun x ↦ spec_at_pure fun hx ↦ ?_
  refine (spec_place (by decide) 0x1000).bind fun _ ↦ ?_
  have hr₀ : Reading c₀.mem [] (place si ERDPTL 0x1000 x) := by
    obtain ⟨ha, hnd, -, -, hmem⟩ := hx
    exact ⟨hauto _ (by decide) (by decide) (by decide) ha,
      (ptr_place_of_ne (by decide) _ (by decide) (by decide)).trans hnd, by simp,
      ptr_place (by decide) rfl _, (mem_place _ _).trans hmem, rfl⟩
  refine ((spec_readBuf (n := 4) (W := Reading c₀.mem) (fun _ _ h ↦ h.1)
    fun l hl x h ↦ h.step hl).mono (fun _ _ h ↦ ⟨h.1, h.2.1, _, hr₀, h.2.2⟩) fun _ _ _ h ↦ h).bind
    fun r ↦ spec_at_exists fun l ↦ spec_at_pure fun hl ↦ spec_at_pure fun hr ↦
    spec_at_exists fun y ↦ spec_at_pure fun hy ↦ ?_
  have hl' : l = (List.range 4).map testVals := by
    have hl₀ := hy.2.2.2.2.2
    rwa [show l.length = 4 from hl] at hl₀
  refine spec_reportTest (by rw [hr, hl']; decide) (hst stable_same) ?_
  refine (spec_softReset stable_same (.inr rfl)).mono (fun _ _ h ↦ ⟨h.1, h.2.2⟩) ?_
  rintro - d' c ⟨hd, hcoh, z, ⟨b, seen, rfl⟩, hc⟩
  exact ⟨hd, hcoh, _, hy.2.2.2.2.1, hc⟩

end Enc28j60.SelfTest
