import Enc28j60.Configuration
import Enc28j60.PhyReads

namespace Enc28j60.Startup

open Interaction RegisterMap SpiSlave Port LowLayer Interface Access Banking DataSheet Quiet Boot
open SelfTest Enc28j60.Configuration PhyWrites PhyReads

variable {tot : Prop} {si : Silicon} {c c₀ : Chip} {d : Enc28j60T} {mac : MacAddrT} {r reg : RegT}

section Established

/-- The whole configuration, with the bit positions of the data sheet. -/
structure Configured (si : Silicon) (mac : MacAddrT) (d : Enc28j60T) (c : Chip) : Prop where
  erxst : fetch ERXSTL c = rxBufferStartAddr
  erxnd : fetch ERXNDL c = rxBufferEndAddr
  erxrdpt : fetch ERXRDPTL c = rxBufferEndAddr ∧ c.erxrdpt = rxBufferEndAddr
  mamxfl : fetch MAMXFLL c = 1518
  mabbipg : c.regs (MABBIPG.cell 0) = 0x15
  maadr : [MAADR1, MAADR2, MAADR3, MAADR4, MAADR5, MAADR6].map (fun r ↦ c.regs (r.cell 0)) =
    [mac.addr1, mac.addr2, mac.addr3, mac.addr4, mac.addr5, mac.addr6]
  erxfcon : c.regs (ERXFCON.cell 0) = si.resetRegs (ERXFCON.cell 0) ||| 0x20
  econ2 : c.econ2 = si.resetRegs (ECON2.cell 0) ||| 0x80
  macon1 : c.regs (MACON1.cell 0) = si.resetRegs (MACON1.cell 0) ||| 0x0D
  macon3 : c.regs (MACON3.cell 0) = si.resetRegs (MACON3.cell 0) &&& 0x0C ||| 0x33
  rxen : c.rxen = true
  txrts : c.txrts = false
  nextRxPacketPtr : d.nextRxPacketPtr = rxBufferStartAddr
  txBuffPtr : d.txBuffPtr = txBufferStartAddr
  bank : (chip si).bsel c = d.bank.bits ∧ d.bank ≠ .common

theorem set_bits : ∀ v : Byte,
    (ErxfconReg.crcen.set 1 (v.setWidth 16 : Word)).setWidth 8 = v ||| 0x20 ∧
    (Macon1Reg.rxpaus.set 1 (Macon1Reg.txpaus.set 1
      (Macon1Reg.marxen.set 1 (v.setWidth 16 : Word)))).setWidth 8 = v ||| 0x0D ∧
    (Macon3Reg.fulldpx.set 1 (Macon3Reg.frmlnen.set 1 (Macon3Reg.txcrcen.set 1
      (Macon3Reg.padcfg.set macon360bPadded (v.setWidth 16 : Word))))).setWidth 8 =
        v &&& 0x0C ||| 0x33 := by
  decide

theorem regs_of_fetch (hl : r.length ≠ 2) (hx : r.cell 0 ∉
    [ECON2.cell 0, EPKTCNT.cell 0, ERXWRPTL.cell 0, ERXWRPTL.cell 1]) {b : Byte}
    (h : fetch r c = b.setWidth 16) : c.regs (r.cell 0) = b := by
  rw [fetch, if_neg hl, peek_plain hx] at h
  have hb := congrArg (BitVec.setWidth 8) h
  rwa [setWidth_low, setWidth_low] at hb

/-- While the transmit logic is off the chip's own events leave all registers alone. -/
theorem Evolves.steady (h : Evolves si c₀ c) (ht : c₀.txrts = false) :
    c.regs = c₀.regs ∧ c.erxrdpt = c₀.erxrdpt := by
  refine h.of_stable (P := fun c ↦ c.regs = c₀.regs ∧ c.erxrdpt = c₀.erxrdpt) ?_ ⟨rfl, rfl⟩
  intro e c hc
  have htx : c.txrts = false := by
    rw [Chip.txrts, Chip.econ1, hc.1]
    exact ht
  cases e with
  | arrive f =>
    refine ⟨(c.arrive_regs f).trans hc.1, ?_⟩
    simp only [Event.act, Chip.arrive]
    split
    · exact hc.2
    · exact hc.2
  | txDone =>
    simp only [Event.act, htx, Bool.false_eq_true, if_false]
    exact hc

theorem erxrdpt_boot (y : Chip) : fetch ERXRDPTL (boot si mac (y.reset si)) = rxBufferEndAddr := by
  rw [boot, fetch_bootPhy (by decide), fetch_bootAddr (by decide), fetch_bootMac (by decide),
    fetch_clkWait, fetch_bootFilter (by decide), bootRing, fetch_place (by decide)]
  rfl

theorem configured_boot (y : Chip) {d : Enc28j60T} :
    Configured si mac (initialized d) (awake (boot si mac (y.reset si))) := by
  have hfetch (r : RegT) (h : Apart r [ECON1.cell 0]) :
      fetch r (awake (boot si mac (y.reset si))) = fetch r (boot si mac (y.reset si)) := by
    refine fetch_frame h fun x hx ↦ regs_awake fun he ↦ hx ?_
    rw [he]
    exact List.mem_cons_self
  have hboot : ∀ p ∈ programmed si mac, fetch p.1 (boot si mac (y.reset si)) = p.2 := fetch_boot y
  simp only [programmed, List.forall_mem_cons] at hboot
  obtain ⟨h₁, h₂, h₃, h₄, h₅, h₆, h₇, m₁, m₂, m₃, m₄, m₅, m₆, -⟩ := hboot
  have hbyte (r : RegT) (h : Apart r [ECON1.cell 0]) (hl : r.length ≠ 2) (hx : r.cell 0 ∉
      [ECON2.cell 0, EPKTCNT.cell 0, ERXWRPTL.cell 0, ERXWRPTL.cell 1]) {b : Byte}
      (hb : fetch r (boot si mac (y.reset si)) = b.setWidth 16) :
      (awake (boot si mac (y.reset si))).regs (r.cell 0) = b := by
    rw [← hfetch r h] at hb
    exact regs_of_fetch hl hx hb
  have hrd : (awake (boot si mac (y.reset si))).erxrdpt = rxBufferEndAddr :=
    congrArg Prod.snd (ringPointers_boot y)
  have hecon2 : (awake (boot si mac (y.reset si))).econ2 = 0x80 := by
    rw [Chip.econ2, regs_awake (by decide)]
    exact econ2_boot y
  have hecon1 : (awake (boot si mac (y.reset si))).econ1 = 0x07 := by
    simp only [Chip.econ1, awake, Function.update_self]
  refine ⟨?_, ?_, ⟨?_, hrd⟩, ?_, ?_, ?_, ?_, ?_, ?_, ?_, ?_, ?_, rfl, rfl, ?_, ?_⟩
  · rw [hfetch _ (by decide), h₁]
  · rw [hfetch _ (by decide), h₂]
  · rw [hfetch _ (by decide), erxrdpt_boot]
  · rw [hfetch _ (by decide), h₆]
  · exact hbyte MABBIPG (by decide) (by decide) (by decide) h₇
  · simp only [List.map_cons, List.map_nil]
    rw [hbyte MAADR1 (by decide) (by decide) (by decide) m₁,
      hbyte MAADR2 (by decide) (by decide) (by decide) m₂,
      hbyte MAADR3 (by decide) (by decide) (by decide) m₃,
      hbyte MAADR4 (by decide) (by decide) (by decide) m₄,
      hbyte MAADR5 (by decide) (by decide) (by decide) m₅,
      hbyte MAADR6 (by decide) (by decide) (by decide) m₆]
  · rw [hbyte ERXFCON (by decide) (by decide) (by decide) h₃, (set_bits _).1]
  · rw [hecon2, si.econ2]
    rfl
  · rw [hbyte MACON1 (by decide) (by decide) (by decide) h₄, (set_bits _).2.1]
  · rw [hbyte MACON3 (by decide) (by decide) (by decide) h₅, (set_bits _).2.2]
  · rw [Chip.rxen, hecon1]
    rfl
  · rw [Chip.txrts, hecon1]
    rfl
  · rw [bsel_eq, hecon1]
    exact (show (0x07 : Byte).setWidth 2 = BankT.bank3.bits by decide)
  · exact fun h ↦ BankT.noConfusion h

theorem Configured.evolves {c' : Chip} (h : Configured si mac d c) (he : Evolves si c c') :
    Configured si mac d c' := by
  obtain ⟨hregs, hrd⟩ := Evolves.steady he h.txrts
  have hecon1 : c'.econ1 = c.econ1 := congrFun hregs _
  have hfetch (r : RegT) (hr : Apart r []) : fetch r c' = fetch r c :=
    fetch_frame hr fun x _ ↦ congrFun hregs x
  refine ⟨?_, ?_, ⟨?_, hrd.trans h.erxrdpt.2⟩, ?_, ?_, ?_, ?_, ?_, ?_, ?_, ?_, ?_,
    h.nextRxPacketPtr, h.txBuffPtr, ?_, h.bank.2⟩
  · rw [hfetch _ (by decide), h.erxst]
  · rw [hfetch _ (by decide), h.erxnd]
  · rw [hfetch _ (by decide), h.erxrdpt.1]
  · rw [hfetch _ (by decide), h.mamxfl]
  · rw [hregs, h.mabbipg]
  · rw [hregs, h.maadr]
  · rw [hregs, h.erxfcon]
  · rw [Chip.econ2, hregs]
    exact h.econ2
  · rw [hregs, h.macon1]
  · rw [hregs, h.macon3]
  · rw [Chip.rxen, hecon1]
    exact h.rxen
  · rw [Chip.txrts, hecon1]
    exact h.txrts
  · rw [bsel_eq, hecon1]
    exact h.bank.1

/-- From any state whatsoever the initialisation comes to its end with everything programmed,
even when frames are accepted as soon as the receiver is on. -/
theorem init_configures (LL_TEST : Bool) (mac : MacAddrT) (d : Enc28j60T) (s : Bus Chip)
    (σ : ℕ → List Event) :
    ∃ d' s', (live si).Returns σ ((enc28j60Init LL_TEST mac).run d) s ((), d') s' ∧
      Configured si mac d' s'.chip := by
  have hinit : (bench True si).Does (enc28j60Init LL_TEST mac) _ d s :=
    does_init LL_TEST mac (P := fun _ ↦ True) (fun _ _ _ ↦ trivial) trivial
  obtain ⟨⟨⟩, d', s', hr, -, rfl, -, x, y, -, -, hev⟩ := Machine.dwp_total hinit σ
  exact ⟨_, s', hr, (configured_boot y).evolves hev⟩

end Established

section Traceless

/-- `c` with another buffer memory and other waiting times. -/
def recast (m : ℕ → Byte) (k n : ℕ) (c : Chip) : Chip := { c with mem := m, draws := k, clkWait := n }

variable {m : ℕ → Byte} {k n : ℕ}

def startCells : List Cell := [ECON1.cell 0, MIWRL.cell 1, MICMD.cell 0]

theorem writeCell_recast {x : Cell} (h : x ∉ startCells) (b : Byte) :
    (recast m k n c).writeCell si x b = recast m k n (c.writeCell si x b) := by
  simp only [startCells, List.mem_cons, List.not_mem_nil, or_false, not_or] at h
  obtain ⟨h₁, h₂, h₃⟩ := h
  unfold Chip.writeCell
  simp only [h₁, h₂, h₃, if_false, false_and]
  split_ifs <;> rfl

theorem place_recast (h : Avoids reg startCells) (v : Word) :
    place si reg v (recast m k n c) = recast m k n (place si reg v c) := by
  unfold Avoids RegT.cells at h
  unfold place
  by_cases hl : reg.length = 2
  · simp only [hl, if_true, List.forall_mem_cons] at h ⊢
    rw [writeCell_recast h.1, writeCell_recast h.2.1]
  · simp only [hl, if_false, List.forall_mem_cons] at h ⊢
    rw [writeCell_recast h.1]

theorem fetch_recast : fetch r (recast m k n c) = fetch r c := rfl

theorem phyRead_recast (a : Byte) :
    phyRead si a (recast m k n c) = recast m (k + 1) n (phyRead si a c) := by
  rw [phyRead_eq, phyRead_eq]
  rfl

theorem phyWrite_recast (a : Byte) (v : Word) :
    phyWrite si a v (recast m k n c) = recast m (k + 1) n (phyWrite si a v c) := by
  have hplain (c : Chip) : (c.writeCell si (MIREGADR.cell 0) a).writeCell si (MIWRL.cell 0)
      (v.setWidth 8) = (c.setReg (MIREGADR.cell 0) a).setReg (MIWRL.cell 0) (v.setWidth 8) := by
    rw [writeCell_plain (x := MIREGADR.cell 0) (by decide),
      writeCell_plain (x := MIWRL.cell 0) (by decide)]
  unfold phyWrite
  rw [place_miwr, place_miwr, hplain, hplain, writeCell_miwrh, writeCell_miwrh]
  rfl

/-- What the initialisation makes of the registers does not depend on the memory or the
waiting times. -/
theorem boot_recast : boot si mac (recast m k n c) = recast m (k + 2) 0 (boot si mac c) := by
  have hring : bootRing si (recast m k n c) = recast m k n (bootRing si c) := by
    simp (disch := decide) only [bootRing, place_recast]
  have hfilter (c : Chip) : bootFilter si (recast m k n c) = recast m k n (bootFilter si c) := by
    simp (disch := decide) only [bootFilter, place_recast, fetch_recast]
  have hclk (c : Chip) : ({ recast m k n c with clkWait := 0 } : Chip) =
      recast m k 0 { c with clkWait := 0 } := rfl
  have hmac (c : Chip) : bootMac si (recast m k 0 c) = recast m k 0 (bootMac si c) := by
    simp (disch := decide) only [bootMac, place_recast, fetch_recast]
  have haddr (c : Chip) : bootAddr si mac (recast m k 0 c) = recast m k 0 (bootAddr si mac c) := by
    simp (disch := decide) only [bootAddr, place_recast]
  rw [boot, hring, hfilter, hclk, hmac, haddr, bootPhy]
  simp only [phyRead_recast, phyWrite_recast, fetch_recast]
  rfl

theorem recast_reset (x y : Chip) :
    y.reset si = recast y.mem (y.draws + 1) (si.delay y.draws) (x.reset si) := rfl

/-- Both configurations of the start-up come to their end, and with the same driver record and
the same chip, but for the four bytes the test has written and the number of waits there were. -/
theorem selfTest_traceless (mac : MacAddrT) (d : Enc28j60T) (s : Bus Chip)
    (σ τ : ℕ → List Empty) : ∃ d' s₁ s₂,
      (Port.machine (chip si) still).Returns σ ((enc28j60Init true mac).run d) s ((), d') s₁ ∧
      (Port.machine (chip si) still).Returns τ ((enc28j60Init false mac).run d) s ((), d') s₂ ∧
      s₁.window = s₂.window ∧
      s₁.chip = { s₂.chip with mem := s₁.chip.mem, draws := s₁.chip.draws } ∧
      ∀ a, ¬(0x1000 ≤ a ∧ a ≤ 0x1003) → s₁.chip.mem a = s₂.chip.mem a := by
  have hinit (LL_TEST : Bool) : (benchUnder still True si).Does (enc28j60Init LL_TEST mac) _ d s :=
    does_init_under natural_still LL_TEST mac (P := fun c ↦ c = s.chip) (R := fun c₀ c ↦ c = c₀)
      nofun (fun _ ↦ nofun) (fun _ ↦ rfl) rfl
  obtain ⟨⟨⟩, d₁, s₁, hr₁, hw₁, rfl, -, x, y, rfl, hy, h₁⟩ := Machine.dwp_total (hinit true) σ
  obtain ⟨⟨⟩, d₂, s₂, hr₂, hw₂, rfl, -, x, z, rfl, hz, h₂⟩ := Machine.dwp_total (hinit false) τ
  have hboot (u : Chip) : awake (boot si mac (u.reset si)) =
      recast u.mem (u.draws + 3) 0 (awake (boot si mac (s.chip.reset si))) := by
    rw [recast_reset s.chip u, boot_recast]
    rfl
  rw [hboot y] at h₁
  rw [hboot z] at h₂
  refine ⟨_, _, _, hr₁, hr₂, hw₁.trans hw₂.symm, ?_, fun a ha ↦ ?_⟩
  · rw [h₁, h₂]
    rfl
  · have hm₁ : s₁.chip.mem = probed s.chip.mem 4 := by
      rw [h₁, ← show y.mem = probed s.chip.mem 4 from hy]
      rfl
    have hm₂ : s₂.chip.mem = s.chip.mem := by
      rw [h₂, ← show z.mem = s.chip.mem from hz]
      rfl
    rw [hm₁, hm₂]
    exact if_neg fun h ↦ ha ⟨h.1, by omega⟩

end Traceless

end Enc28j60.Startup
