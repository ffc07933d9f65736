import Enc28j60.Boot

namespace Enc28j60.Configuration

open RegisterMap SpiSlave Port LowLayer Interface Access Banking DataSheet
open Quiet SelfTest Boot

variable {tot : Prop} {si : Silicon} {c c' : Chip} {mac : MacAddrT} {r reg : RegT} {x : Cell}

section Frames

theorem regs_place_frame (h : x ∉ reg.cells) (v : Word) : (place si reg v c).regs x = c.regs x := by
  have hw (y : Cell) (b : Byte) (c : Chip) (hy : x ≠ y) :
      (c.writeCell si y b).regs x = c.regs x := by
    by_cases h₂ : y = ECON2.cell 0
    · subst h₂
      rw [regs_econ2, if_neg hy]
    · rw [regs_writeCell h₂, if_neg hy]
  unfold RegT.cells at h
  unfold place
  by_cases hl : reg.length = 2
  · simp only [hl, if_true, List.mem_cons, List.not_mem_nil, or_false, not_or] at h ⊢
    rw [hw _ _ _ h.2, hw _ _ _ h.1]
  · simp only [hl, if_false, List.mem_cons, List.not_mem_nil, or_false] at h ⊢
    rw [hw _ _ _ h]

/-- `r` is a plain register, none of whose bytes is in `l`. -/
def Apart (r : RegT) (l : List Cell) : Prop :=
  ∀ x ∈ r.cells, x ∉ l ∧ x ∉ [ECON2.cell 0, EPKTCNT.cell 0, ERXWRPTL.cell 0, ERXWRPTL.cell 1]

instance (r : RegT) (l : List Cell) : Decidable (Apart r l) := List.decidableBAll _ _

theorem fetch_frame {l : List Cell} (h : Apart r l) (hc : ∀ x, x ∉ l → c'.regs x = c.regs x) :
    fetch r c' = fetch r c := by
  unfold Apart RegT.cells at h
  unfold fetch
  by_cases hl : r.length = 2
  · simp only [hl, if_true, List.forall_mem_cons] at h ⊢
    rw [peek_plain h.1.2, peek_plain h.2.1.2, peek_plain h.1.2, peek_plain h.2.1.2,
      hc _ h.1.1, hc _ h.2.1.1]
  · simp only [hl, if_false, List.forall_mem_cons] at h ⊢
    rw [peek_plain h.1.2, peek_plain h.1.2, hc _ h.1.1]

theorem fetch_place_frame (h : Apart r reg.cells) (v : Word) :
    fetch r (place si reg v c) = fetch r c :=
  fetch_frame h fun _ hx ↦ regs_place_frame hx v

theorem regs_bootRing (h : x ∉ ERXSTL.cells ++ ERXNDL.cells ++ ERXRDPTL.cells) :
    (bootRing si c).regs x = c.regs x := by
  simp only [List.mem_append, not_or] at h
  rw [bootRing, regs_place_frame h.2, regs_place_frame h.1.2, regs_place_frame h.1.1]

theorem fetch_bootRing (h : Apart r (ERXSTL.cells ++ ERXNDL.cells ++ ERXRDPTL.cells)) :
    fetch r (bootRing si c) = fetch r c :=
  fetch_frame h fun _ hx ↦ regs_bootRing hx

theorem fetch_bootFilter (h : Apart r (ERXFCON.cells ++ ECON2.cells)) :
    fetch r (bootFilter si c) = fetch r c := by
  refine fetch_frame h fun x hx ↦ ?_
  simp only [List.mem_append, not_or] at hx
  unfold bootFilter
  rw [regs_place_frame hx.2, regs_place_frame hx.1]

theorem fetch_bootMac (h : Apart r (MACON1.cells ++ MACON3.cells ++ MAMXFLL.cells ++
    MABBIPG.cells)) : fetch r (bootMac si c) = fetch r c := by
  refine fetch_frame h fun x hx ↦ ?_
  simp only [List.mem_append, not_or] at hx
  unfold bootMac
  rw [regs_place_frame hx.2, regs_place_frame hx.1.2, regs_place_frame hx.1.1.2,
    regs_place_frame hx.1.1.1]

theorem fetch_bootAddr (h : Apart r (MAADR1.cells ++ MAADR2.cells ++ MAADR3.cells ++
    MAADR4.cells ++ MAADR5.cells ++ MAADR6.cells)) : fetch r (bootAddr si mac c) = fetch r c := by
  refine fetch_frame h fun x hx ↦ ?_
  simp only [List.mem_append, not_or] at hx
  rw [bootAddr, regs_place_frame hx.2, regs_place_frame hx.1.2, regs_place_frame hx.1.1.2,
    regs_place_frame hx.1.1.1.2, regs_place_frame hx.1.1.1.1.2, regs_place_frame hx.1.1.1.1.1]

def phyCells : List Cell :=
  [MIREGADR.cell 0, MICMD.cell 0, MIRDL.cell 0, MIRDL.cell 1, MIWRL.cell 0, MIWRL.cell 1]

theorem regs_bootPhy (h : x ∉ phyCells) : (bootPhy si c).regs x = c.regs x := by
  simp only [phyCells, List.mem_cons, List.not_mem_nil, or_false, not_or] at h
  obtain ⟨h₁, h₂, h₃, h₄, h₅, h₆⟩ := h
  unfold bootPhy
  rw [regs_phyWrite, regs_phyRead]
  · simp only [List.mem_cons, List.not_mem_nil, or_false, not_or]
    exact ⟨h₁, h₂, h₃, h₄⟩
  · simp only [List.mem_cons, List.not_mem_nil, or_false, not_or]
    exact ⟨h₁, h₅, h₆⟩

theorem fetch_bootPhy (h : Apart r phyCells) : fetch r (bootPhy si c) = fetch r c :=
  fetch_frame h fun _ hx ↦ regs_bootPhy hx

end Frames

/-- What `enc28j60_ll_init` programs, with the reset values it keeps bits of. -/
def programmed (si : Silicon) (mac : MacAddrT) : List (RegT × Word) :=
  let resetValue (r : RegT) : Word := (si.resetRegs (r.cell 0)).setWidth 16
  let low (w : Word) : Word := (w.setWidth 8 : Byte).setWidth 16
  [(ERXSTL, rxBufferStartAddr), (ERXNDL, rxBufferEndAddr),
   (ERXFCON, low (ErxfconReg.crcen.set 1 (resetValue ERXFCON))),
   (MACON1, low (Macon1Reg.rxpaus.set 1 (Macon1Reg.txpaus.set 1
     (Macon1Reg.marxen.set 1 (resetValue MACON1))))),
   (MACON3, low (Macon3Reg.fulldpx.set 1 (Macon3Reg.frmlnen.set 1 (Macon3Reg.txcrcen.set 1
     (Macon3Reg.padcfg.set macon360bPadded (resetValue MACON3)))))),
   (MAMXFLL, 1518), (MABBIPG, 0x15),
   (MAADR1, mac.addr1.setWidth 16), (MAADR2, mac.addr2.setWidth 16),
   (MAADR3, mac.addr3.setWidth 16), (MAADR4, mac.addr4.setWidth 16),
   (MAADR5, mac.addr5.setWidth 16), (MAADR6, mac.addr6.setWidth 16)]

theorem setWidth_low : ∀ b : Byte, (b.setWidth 16 : Word).setWidth 8 = b := by decide

theorem fetch_reset (h : Apart r []) (hl : r.length ≠ 2) :
    fetch r (c.reset si) = (si.resetRegs (r.cell 0)).setWidth 16 := by
  have hx := (h (r.cell 0) (by rw [RegT.cells, if_neg hl]; exact List.mem_cons_self)).2
  rw [fetch, if_neg hl, peek_plain hx]
  rfl

theorem fetch_clkWait (n : ℕ) : fetch r { c with clkWait := n } = fetch r c := rfl

theorem fetch_boot (y : Chip) :
    ∀ p ∈ programmed si mac, fetch p.1 (boot si mac (y.reset si)) = p.2 := by
  have hlast {r : RegT} {v : Word} (h : Storing r) {c : Chip} : fetch r (place si r v c) =
      if r.length = 2 then v else (v.setWidth 8 : Byte).setWidth 16 := fetch_place h v
  simp only [programmed, List.forall_mem_cons, boot]
  refine ⟨?_, ?_, ?_, ?_, ?_, ?_, ?_, ?_, ?_, ?_, ?_, ?_, ?_, nofun⟩
  -- the pointers of the receive buffer
  iterate 2
    rw [fetch_bootPhy (by decide), fetch_bootAddr (by decide), fetch_bootMac (by decide),
      fetch_clkWait, fetch_bootFilter (by decide), bootRing]
    simp (disch := decide) only [fetch_place_frame, hlast]
    rfl
  · rw [fetch_bootPhy (by decide), fetch_bootAddr (by decide), fetch_bootMac (by decide),
      fetch_clkWait, bootFilter, fetch_place_frame (by decide), hlast (by decide),
      fetch_bootRing (by decide), fetch_reset (by decide) (by decide)]
    rfl
  -- the MAC's configuration
  iterate 4
    rw [fetch_bootPhy (by decide), fetch_bootAddr (by decide), bootMac]
    simp (disch := decide) only [fetch_place_frame, hlast, fetch_clkWait, fetch_bootFilter,
      fetch_bootRing, fetch_reset]
    rfl
  -- the MAC address
  iterate 6
    rw [fetch_bootPhy (by decide), bootAddr]
    simp (disch := decide) only [fetch_place_frame, hlast, setWidth_low]
    rfl

theorem phy_place (r : RegT) (v : Word) : (place si r v c).phy = c.phy := by
  unfold place
  simp only
  split
  · rw [phy_writeCell, phy_writeCell]
  · rw [phy_writeCell]

/-- The PHY after the initialisation: one bit of `PHCON1` has been set in the value read. -/
theorem phy_boot (y : Chip) : (boot si mac (y.reset si)).phy =
    Function.update si.resetPhy 0 (Phcon1Reg16.pdpxmd.set 1 (si.resetPhy 0)) := by
  have h (c : Chip) : (bootPhy si c).phy =
      Function.update c.phy 0 (Phcon1Reg16.pdpxmd.set 1 (c.phy 0)) := by
    unfold bootPhy
    rw [phy_phyWrite, phy_phyRead, fetch_phyRead]
    rfl
  rw [boot, h]
  have hphy : (bootAddr si mac (bootMac si { bootFilter si (bootRing si (y.reset si)) with
      clkWait := 0 })).phy = si.resetPhy := by
    simp only [bootAddr, bootMac, bootFilter, bootRing, phy_place]
    rfl
  rw [hphy]

/-- The packet side of a chip that has received and sent nothing since its reset. -/
structure Untouched (c : Chip) : Prop where
  epktcnt : c.epktcnt = 0
  accepted : c.accepted = []
  pktcntSeen : c.pktcntSeen = []
  sent : c.sent = []

theorem Untouched.writeCell (h : Untouched c) {v : Byte} (hx : x ≠ ECON1.cell 0)
    (h₂ : x = ECON2.cell 0 → v.getLsbD 6 = false) : Untouched (c.writeCell si x v) := by
  obtain ⟨h₁, h₃, h₄, h₅⟩ := h
  unfold Chip.writeCell
  rw [if_neg hx]
  split_ifs with he
  · refine ⟨?_, h₃, h₄, h₅⟩
    simp only [Chip.writeEcon2, h₂ he, h₁]
    rfl
  all_goals exact ⟨h₁, h₃, h₄, h₅⟩

theorem writable_econ2 : ∀ r ∈ registerMap, r.type ≠ .phyR →
    (r.cell 0 = ECON2.cell 0 ↔ r = ECON2) ∧ (r.length = 2 → r.cell 1 ≠ ECON2.cell 0) := by
  decide

theorem Untouched.place (h : Untouched c) (hr : Writable reg) {v : Word}
    (h₂ : reg = ECON2 → v.getLsbD 6 = false) : Untouched (place si reg v c) := by
  obtain ⟨hm, ht, hn⟩ := hr
  have he := registerMap_econ1 reg hm ht
  have he₂ := writable_econ2 reg hm ht
  have hlow : reg.cell 0 = ECON2.cell 0 → (v.setWidth 8).getLsbD 6 = false := by
    intro hx
    rw [BitVec.getLsbD_setWidth, h₂ (he₂.1.mp hx), Bool.and_false]
  have h₀ : Untouched (c.writeCell si (reg.cell 0) (v.setWidth 8)) :=
    h.writeCell (fun hx ↦ hn (he.1.mp hx)) hlow
  unfold Quiet.place
  simp only
  split
  next hl => exact h₀.writeCell (he.2 hl) fun hx ↦ absurd hx (he₂.2 hl)
  next => exact h₀

theorem Untouched.place_of_ne (h : Untouched c) (hr : Writable reg ∧ reg ≠ ECON2) (v : Word) :
    Untouched (Quiet.place si reg v c) := h.place hr.1 fun he ↦ absurd he hr.2

theorem Untouched.finishMiim (h : Untouched c) (op : Miim) : Untouched (c.finishMiim op) := by
  cases op <;> exact ⟨h.epktcnt, h.accepted, h.pktcntSeen, h.sent⟩

theorem Untouched.phyRead (h : Untouched c) (a : Byte) : Untouched (phyRead si a c) := by
  have hw {c : Chip} (h : Untouched c) (r : RegT) (hr : r.cell 0 ≠ ECON1.cell 0 ∧
      r.cell 0 ≠ ECON2.cell 0) (v : Byte) : Untouched (c.writeCell si (r.cell 0) v) :=
    h.writeCell hr.1 fun he ↦ absurd he hr.2
  have h₂ := hw (hw h MIREGADR (by decide) a) MICMD (by decide)
    (MicmdReg8.miird.set 1 (c.peek (MICMD.cell 0)))
  exact hw (h₂.finishMiim (.read (a.setWidth 5))) MICMD (by decide) _

theorem Untouched.phyWrite (h : Untouched c) (a : Byte) (v : Word) :
    Untouched (phyWrite si a v c) := by
  have h₁ : Untouched (c.writeCell si (MIREGADR.cell 0) a) :=
    h.writeCell (by decide) fun he ↦ absurd he (by decide)
  exact (h₁.place_of_ne (show Writable MIWRL ∧ MIWRL ≠ ECON2 by decide) v).finishMiim _

theorem untouched_reset (y : Chip) : Untouched (y.reset si) := ⟨rfl, rfl, rfl, rfl⟩

theorem fetch_econ2_boot (y : Chip) : fetch ECON2
    (place si ERXFCON (ErxfconReg.crcen.set 1 (fetch ERXFCON (bootRing si (y.reset si))))
      (bootRing si (y.reset si))) = 0x80 := by
  have hx : (place si ERXFCON (ErxfconReg.crcen.set 1 (fetch ERXFCON (bootRing si (y.reset si))))
      (bootRing si (y.reset si))).regs (ECON2.cell 0) = 0x80 := by
    rw [regs_place_frame (by decide), regs_bootRing (by decide)]
    exact si.econ2
  rw [fetch, if_neg (by decide)]
  exact congrArg (BitVec.setWidth 16) hx

theorem untouched_boot (y : Chip) : Untouched (boot si mac (y.reset si)) := by
  have h₁ : Untouched (bootRing si (y.reset si)) := by
    unfold bootRing
    exact (((untouched_reset y).place_of_ne (by decide) _).place_of_ne (by decide) _).place_of_ne
      (by decide) _
  have h₂ : Untouched (bootFilter si (bootRing si (y.reset si))) := by
    unfold bootFilter
    simp only [fetch_econ2_boot]
    exact (h₁.place_of_ne (by decide) _).place (by decide) fun _ ↦ by decide
  have h₃ (c : Chip) (h : Untouched c) : Untouched (bootMac si c) := by
    unfold bootMac
    exact (((h.place_of_ne (by decide) _).place_of_ne (by decide) _).place_of_ne
      (by decide) _).place_of_ne (by decide) _
  have h₄ (c : Chip) (h : Untouched c) : Untouched (bootAddr si mac c) := by
    unfold bootAddr
    exact (((((h.place_of_ne (by decide) _).place_of_ne (by decide) _).place_of_ne
      (by decide) _).place_of_ne (by decide) _).place_of_ne (by decide) _).place_of_ne (by decide) _
  have h₅ (c : Chip) (h : Untouched c) : Untouched { c with clkWait := 0 } :=
    ⟨h.epktcnt, h.accepted, h.pktcntSeen, h.sent⟩
  unfold boot bootPhy
  exact ((h₄ _ (h₃ _ (h₅ _ h₂))).phyRead _).phyWrite _ _

section RingPointers

/-- Where the chip writes next, and how far. -/
def ringPointers (c : Chip) : Word × Word := (c.erxwrpt, c.erxrdpt)

def ringCells : List Cell :=
  [ERXRDPTL.cell 1, ERXSTL.cell 0, ERXSTL.cell 1, ERXNDL.cell 0, ERXNDL.cell 1]

theorem ringPointers_writeCell (h : x ∉ ringCells) (v : Byte) :
    ringPointers (c.writeCell si x v) = ringPointers c := by
  have h₁ : x ≠ ERXRDPTL.cell 1 := fun he ↦ h (by rw [he]; exact List.mem_cons_self)
  have h₂ : x ∉ [ERXSTL.cell 0, ERXSTL.cell 1, ERXNDL.cell 0, ERXNDL.cell 1] :=
    fun hm ↦ h (List.mem_cons_of_mem _ hm)
  unfold Chip.writeCell Chip.writeEcon1
  simp only [h₁, h₂, if_false]
  split_ifs <;> rfl

def Avoids (r : RegT) (l : List Cell) : Prop := ∀ x ∈ r.cells, x ∉ l

instance (r : RegT) (l : List Cell) : Decidable (Avoids r l) := List.decidableBAll _ _

theorem ringPointers_place (h : Avoids reg ringCells) (v : Word) :
    ringPointers (place si reg v c) = ringPointers c := by
  unfold Avoids RegT.cells at h
  unfold place
  by_cases hl : reg.length = 2
  · simp only [hl, if_true, List.forall_mem_cons] at h ⊢
    rw [ringPointers_writeCell h.2.1, ringPointers_writeCell h.1]
  · simp only [hl, if_false, List.forall_mem_cons] at h ⊢
    rw [ringPointers_writeCell h.1]

theorem ringPointers_bootRing : ringPointers (bootRing si c) =
    (rxBufferStartAddr, rxBufferEndAddr) := by
  have hst : ∀ v : Word, (place si ERXNDL v (place si ERXSTL rxBufferStartAddr c)).erxwrpt =
      rxBufferStartAddr := by
    intro v
    change word ((((place si ERXSTL rxBufferStartAddr c).writeCell si (ERXNDL.cell 0)
        (v.setWidth 8)).setReg (ERXNDL.cell 1) ((v >>> 8).setWidth 8)).regs (ERXSTL.cell 1))
      ((((place si ERXSTL rxBufferStartAddr c).writeCell si (ERXNDL.cell 0)
        (v.setWidth 8)).setReg (ERXNDL.cell 1) ((v >>> 8).setWidth 8)).regs (ERXSTL.cell 0)) = _
    rw [regs_setReg, if_neg (by decide), regs_setReg, if_neg (by decide), regs_writeCell (by decide),
      if_neg (by decide), regs_writeCell (by decide), if_neg (by decide), regs_place (by decide),
      if_pos ⟨rfl, rfl⟩, regs_place (by decide), if_neg (by decide), if_pos rfl, word_bytes]
  have hrd (c : Chip) : place si ERXRDPTL rxBufferEndAddr c =
      (c.writeCell si (ERXRDPTL.cell 0) (rxBufferEndAddr.setWidth 8)).writeCell si
        (ERXRDPTL.cell 1) ((rxBufferEndAddr >>> 8).setWidth 8) := rfl
  have hlow (c : Chip) : ringPointers (c.writeCell si (ERXRDPTL.cell 0) (rxBufferEndAddr.setWidth 8)) =
      ringPointers c := ringPointers_writeCell (by decide) _
  refine Prod.ext ?_ ?_
  · rw [bootRing, hrd]
    exact (congrArg Prod.fst (hlow _)).trans (hst _)
  · rw [bootRing, hrd]
    change word ((rxBufferEndAddr >>> 8).setWidth 8) ((Chip.writeCell si _ (ERXRDPTL.cell 0)
      (rxBufferEndAddr.setWidth 8)).regs (ERXRDPTL.cell 0)) = _
    rw [regs_writeCell (by decide), if_pos rfl, word_bytes]

theorem ringPointers_boot (y : Chip) : ringPointers (boot si mac (y.reset si)) =
    (rxBufferStartAddr, rxBufferEndAddr) := by
  have hphy (c : Chip) : ringPointers (bootPhy si c) = ringPointers c := by
    have hfin (c : Chip) (op : Miim) : ringPointers (c.finishMiim op) = ringPointers c := by
      cases op <;> rfl
    unfold bootPhy phyWrite phyRead
    rw [hfin, ringPointers_place (by decide), ringPointers_writeCell (by decide),
      ringPointers_writeCell (by decide), hfin, ringPointers_writeCell (by decide),
      ringPointers_writeCell (by decide)]
  have hclk (c : Chip) : ringPointers { c with clkWait := 0 } = ringPointers c := rfl
  rw [boot, hphy, bootAddr]
  iterate 6 rw [ringPointers_place (by decide)]
  rw [bootMac]
  iterate 4 rw [ringPointers_place (by decide)]
  rw [hclk, bootFilter]
  iterate 2 rw [ringPointers_place (by decide)]
  exact ringPointers_bootRing

theorem econ2_boot (y : Chip) : (boot si mac (y.reset si)).econ2 = 0x80 := by
  have hclk (c : Chip) : ({ c with clkWait := 0 } : Chip).regs = c.regs := rfl
  have hecon2 (c : Chip) (v : Word) : (place si ECON2 v c).regs (ECON2.cell 0) =
      v.setWidth 8 &&& ~~~0x40 := by
    change (c.writeCell si (ECON2.cell 0) (v.setWidth 8)).regs (ECON2.cell 0) = _
    rw [regs_econ2, if_pos rfl]
  rw [Chip.econ2, boot, regs_bootPhy (by decide), bootAddr]
  iterate 6 rw [regs_place_frame (by decide)]
  rw [bootMac]
  iterate 4 rw [regs_place_frame (by decide)]
  rw [hclk, bootFilter, hecon2, fetch_econ2_boot]
  decide

end RingPointers

end Enc28j60.Configuration
