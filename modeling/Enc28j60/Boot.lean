import Enc28j60.SelfTest
import Enc28j60.PhyWrites

namespace Enc28j60.Boot

open Interaction RegisterMap SpiSlave Port LowLayer Interface Access Banking DataSheet Transfers
open Quiet SelfTest PhyWrites

variable {tot : Prop} {si : Silicon} {c c₀ : Chip} {d : Enc28j60T} {mac : MacAddrT}

section Stages

variable (si : Silicon) (mac : MacAddrT) (c : Chip)

def bootRing : Chip :=
  place si ERXRDPTL rxBufferEndAddr
    (place si ERXNDL rxBufferEndAddr (place si ERXSTL rxBufferStartAddr c))

def bootFilter : Chip :=
  let c := place si ERXFCON (ErxfconReg.crcen.set 1 (fetch ERXFCON c)) c
  place si ECON2 (Econ2Reg.autoinc.set 1 (fetch ECON2 c)) c

def bootMac : Chip :=
  let c := place si MACON1 (Macon1Reg.rxpaus.set 1 (Macon1Reg.txpaus.set 1
    (Macon1Reg.marxen.set 1 (fetch MACON1 c)))) c
  let c := place si MACON3 (Macon3Reg.fulldpx.set 1 (Macon3Reg.frmlnen.set 1
    (Macon3Reg.txcrcen.set 1 (Macon3Reg.padcfg.set macon360bPadded (fetch MACON3 c))))) c
  place si MABBIPG 0x15 (place si MAMXFLL 1518 c)

def bootAddr : Chip :=
  place si MAADR6 (mac.addr6.setWidth 16) (place si MAADR5 (mac.addr5.setWidth 16)
    (place si MAADR4 (mac.addr4.setWidth 16) (place si MAADR3 (mac.addr3.setWidth 16)
      (place si MAADR2 (mac.addr2.setWidth 16) (place si MAADR1 (mac.addr1.setWidth 16) c)))))

def bootPhy : Chip :=
  let c := phyRead si PHCON1.regAddr c
  phyWrite si PHCON1.regAddr (Phcon1Reg16.pdpxmd.set 1 (fetch MIRDL c)) c

/-- What `enc28j60_ll_init` makes of the chip before it switches the receiver on. -/
def boot : Chip :=
  bootPhy si (bootAddr si mac (bootMac si { bootFilter si (bootRing si c) with clkWait := 0 }))

end Stages

/-- The receiver is switched on in bank 3. -/
def awake (c : Chip) : Chip :=
  { c with regs := Function.update c.regs (ECON1.cell 0) 0x07, econ1Seen := 0x03 }

theorem regs_awake {x : Cell} (h : x ≠ ECON1.cell 0) : (awake c).regs x = c.regs x :=
  Function.update_of_ne h _ _

theorem phy_awake : (awake c).phy = c.phy := rfl

/-- What becomes of `c₀` by the chip's own doing. -/
def Evolves (si : Silicon) (c₀ c : Chip) : Prop :=
  ∃ es : List Event, c = es.foldl (fun c e ↦ e.act si c) c₀

theorem stable_evolves : (bench tot si).Stable (Evolves si c₀) := by
  rintro e c ⟨es, rfl⟩
  exact ⟨es ++ [e], by rw [List.foldl_append]; rfl⟩

/-- Whatever is stable and holds of the awakened chip holds of what it evolves to. -/
theorem Evolves.of_stable {P : Chip → Prop} (hP : ∀ (e : Event) c, P c → P (e.act si c))
    (h₀ : P c₀) (h : Evolves si c₀ c) : P c := by
  obtain ⟨es, rfl⟩ := h
  induction es generalizing c₀ with
  | nil => exact h₀
  | cons e es ih => exact ih (hP e c₀ h₀)

theorem spec_readEcon1 (hd : d.bank = .bank3) :
    (bench tot si).Spec (At (bench tot si) d (Same c₀)) (enc28j60ReadReg ECON1)
      fun v ↦ At (bench tot si) d fun c ↦ v = 3 ∧ c = rebank c₀ 3 3 := by
  have hst : (bench tot si).Stable fun c ↦ ∃ seen, c = rebank c₀ 3 seen := by
    rintro e c ⟨seen, rfl⟩
    exact ⟨seen, event_rebank e⟩
  have hst' {p : Prop} : (bench tot si).Stable fun c ↦ p ∧ c = rebank c₀ 3 3 := by
    rintro e c ⟨hp, rfl⟩
    exact ⟨hp, event_rebank e⟩
  refine ((bench_lawful tot si).spec_readReg (show ECON1 ∈ registerMap by decide) (by decide)
    (opens_common rfl hst) (R := fun v c ↦ v = 3 ∧ c = rebank c₀ 3 3)
    (Q := fun v c ↦ v = 3 ∧ c = rebank c₀ 3 3) (fun _ ↦ hst') (fun _ ↦ hst') ?_ ?_ ?_).mono ?_
    fun _ _ _ h ↦ h
  · rintro c ⟨seen, rfl⟩ -
    have hr : (rebank c₀ 3 seen).readCell si (ECON1.cell 0) = _ := readCell_econ1
    exact ⟨⟨rfl, econ1_addressed, reaches_econ1 _ _⟩, congrArg Prod.fst hr, congrArg Prod.snd hr⟩
  · rintro - low c ⟨rfl, hc⟩
    exact ⟨rfl, hc⟩
  · exact fun hl ↦ absurd hl (by decide)
  · rintro d' c ⟨rfl, hcoh, b, seen, rfl⟩
    have hb : b = 3 := by
      have hb := hcoh.resolve_left (by rw [hd]; nofun)
      rw [hd] at hb
      exact (((setWidth_bit b).2.2.symm.trans (congrArg (BitVec.setWidth 2) econ1_rebank.symm)).trans
        hb)
    subst hb
    exact ⟨rfl, hcoh, seen, rfl⟩

section Environment

variable {E : Type} {ev : E → Chip → Chip} {R : Chip → Prop}

/-- The bench in another environment. -/
def benchUnder (ev : E → Chip → Chip) (tot : Prop) (si : Silicon) : Setting Chip E :=
  ⟨chip si, ev, hush, tot⟩

/-- The environment does nothing that the chip could not have done on its own. -/
def Natural (si : Silicon) (ev : E → Chip → Chip) : Prop := ∀ e c, Evolves si c (ev e c)

theorem natural_act : Natural si (Event.act si) := fun e _ ↦ ⟨[e], rfl⟩

theorem natural_still : Natural si (still : Empty → Chip → Chip) := nofun

theorem disturb_eq (es : List Event) (s : Bus Chip) : (bench tot si).machine.disturb es s =
    ⟨s.window, es.foldl (fun c e ↦ e.act si c) s.chip⟩ := by
  induction es generalizing s with
  | nil => rfl
  | cons e es ih => exact ih ⟨s.window, e.act si s.chip⟩

theorem spec_under {α : Type} {m : Drv α} {P : Enc28j60T → Chip → Prop}
    {Q : α → Enc28j60T → Chip → Prop} (hev : Natural si ev) (h : (bench tot si).Spec P m Q) :
    (benchUnder ev tot si).Spec P m Q := by
  intro d s hs hp
  have henv (es : List E) (s : Bus Chip) : ∃ fs : List Event,
      (benchUnder ev tot si).machine.disturb es s = (bench tot si).machine.disturb fs s := by
    induction es generalizing s with
    | nil => exact ⟨[], rfl⟩
    | cons e es ih =>
      obtain ⟨fs, hfs⟩ := hev e s.chip
      obtain ⟨gs, hgs⟩ := ih ⟨s.window, ev e s.chip⟩
      refine ⟨fs ++ gs, ?_⟩
      rw [Machine.disturb_append, disturb_eq fs, ← hfs]
      exact hgs
  have hexec : (benchUnder ev tot si).machine.exec = (bench tot si).machine.exec := rfl
  have hwp := Machine.wp_environment hexec henv (h d s hs hp)
  exact hwp

theorem Natural.stable {P : Chip → Prop} (hev : Natural si ev) (hP : (bench tot si).Stable P) :
    (benchUnder ev tot si).Stable P :=
  fun e c h ↦ (hev e c).of_stable hP h

theorem lawful_under (hev : Natural si ev) : Lawful (benchUnder ev tot si) :=
  lawful fun e c ↦ hev.stable ((bench_lawful tot si).stable_bsel (c.econ1.setWidth 2)) e c rfl

/-- The reset of a chip of which only `P` is known. -/
theorem spec_reset {P : Chip → Prop} (hev : Natural si ev) (hP : (benchUnder ev tot si).Stable P)
    (hd : d.bank = .common) :
    (benchUnder ev tot si).Spec (fun d' c ↦ d' = d ∧ P c) enc28j60SoftReset
      fun _ ↦ At (benchUnder ev tot si) d fun c ↦ ∃ x, P x ∧ Same (x.reset si) c := by
  have hQ : (benchUnder ev tot si).Stable fun c ↦ ∃ x, P x ∧ Same (x.reset si) c := by
    intro e c hc
    obtain ⟨x, hx, hc⟩ := hc
    have hsame : (benchUnder ev tot si).Stable (Same (x.reset si)) := hev.stable stable_same
    exact ⟨x, hx, hsame e c hc⟩
  refine (Transfers.spec_softReset (lawful_under hev) hP hQ (d := d) fun c hc ↦ ?_).mono
    (fun _ _ h ↦ h) fun _ d' c h ↦ ?_
  · exact ⟨⟨⟨fun _ h ↦ absurd rfl h, nofun⟩, .inl ⟨rfl, .inl rfl⟩⟩, c, hc, same_reset c⟩
  · obtain ⟨rfl, -, h⟩ := h
    exact ⟨rfl, .inl hd, h⟩

theorem spec_switchOn (hev : Natural si ev) (hR : (benchUnder ev tot si).Stable R)
    (h₀ : R (awake c₀)) (hd : d.bank = .bank3) :
    (benchUnder ev tot si).Spec (At (benchUnder ev tot si) d fun c ↦ c = rebank c₀ 3 3)
      (enc28j60WriteReg ECON1 (Econ1Reg.rxen.set 1 3))
      fun _ ↦ At (benchUnder ev tot si) d R := by
  have hst : (benchUnder ev tot si).Stable fun c ↦ c = rebank c₀ 3 3 := by
    refine hev.stable fun e c hc ↦ ?_
    subst hc
    exact event_rebank e
  refine (lawful_under hev).spec_writeReg (show ECON1 ∈ registerMap by decide) (by decide)
    (opens_common rfl hst) (R := R) hR hR (fun _ _ ↦ ?_) ?_ (fun _ _ h ↦ h)
    fun hl ↦ absurd hl (by decide)
  · rw [hd]
    decide
  · rintro c rfl -
    have hv : ((Econ1Reg.rxen.set 1 (3 : Word)).setWidth 8 : Byte) = 0x07 := by decide
    refine ⟨⟨⟨rfl, econ1_addressed, reaches_econ1 _ _, txrts_rebank, fun _ ↦ (setWidth_bit 3).2.1⟩,
      fun _ ↦ by rw [hv]; decide⟩, ?_⟩
    have hawake : (rebank c₀ 3 3).writeCell si (ECON1.cell 0) 0x07 = awake c₀ := by
      simp only [Chip.writeCell, if_true, Chip.writeEcon1, Chip.setReg, rebank, Function.update_idem]
      rfl
    rw [hv]
    change R ((rebank c₀ 3 3).writeCell si (ECON1.cell 0) 0x07)
    rw [hawake]
    exact h₀

theorem spec_programRegisters (hev : Natural si ev) (hR : (benchUnder ev tot si).Stable R)
    (h₀ : R (awake (boot si mac c₀))) :
    (benchUnder ev tot si).Spec (At (benchUnder ev tot si) d (Same c₀)) (programRegisters mac)
      fun _ ↦ At (benchUnder ev tot si) { d with bank := .bank3 } R := by
  have hplace {c₀ : Chip} {d : Enc28j60T} {reg : RegT} (hr : Writable reg) (v : Word) :
      (benchUnder ev tot si).Spec (At (benchUnder ev tot si) d (Same c₀)) (enc28j60WriteReg reg v)
        fun _ ↦ At (benchUnder ev tot si) (touch reg d) (Same (place si reg v c₀)) :=
    spec_under hev (spec_place hr v)
  have hfetch {c₀ : Chip} {d : Enc28j60T} {reg : RegT} (hr : Readable reg) :
      (benchUnder ev tot si).Spec (At (benchUnder ev tot si) d (Same c₀)) (enc28j60ReadReg reg)
        fun v ↦ At (benchUnder ev tot si) (touch reg d) fun c ↦ v = fetch reg c₀ ∧ Same c₀ c :=
    spec_under hev (spec_fetch hr)
  unfold programRegisters
  refine (hplace (by decide) _).bind fun _ ↦ (hplace (by decide) _).bind fun _ ↦
    (hplace (by decide) _).bind fun _ ↦ ?_
  refine (hfetch (by decide)).bind fun v ↦ spec_at_pure fun hv ↦ ?_
  subst hv
  refine (hplace (by decide) _).bind fun _ ↦ ?_
  refine (hfetch (by decide)).bind fun v ↦ spec_at_pure fun hv ↦ ?_
  subst hv
  refine (hplace (by decide) _).bind fun _ ↦ (spec_under hev spec_clkrdy).bind fun _ ↦ ?_
  refine (hfetch (by decide)).bind fun v ↦ spec_at_pure fun hv ↦ ?_
  subst hv
  refine (hplace (by decide) _).bind fun _ ↦ ?_
  refine (hfetch (by decide)).bind fun v ↦ spec_at_pure fun hv ↦ ?_
  subst hv
  refine (hplace (by decide) _).bind fun _ ↦ (hplace (by decide) _).bind fun _ ↦
    (hplace (by decide) _).bind fun _ ↦ (hplace (by decide) _).bind fun _ ↦
    (hplace (by decide) _).bind fun _ ↦ (hplace (by decide) _).bind fun _ ↦
    (hplace (by decide) _).bind fun _ ↦ (hplace (by decide) _).bind fun _ ↦
    (hplace (by decide) _).bind fun _ ↦ ?_
  refine (spec_under hev (spec_phyRead (by decide) rfl)).bind fun v ↦ spec_at_pure fun hv ↦ ?_
  subst hv
  -- the read has left bank 2 selected, where the PHY write needs it
  refine (spec_under hev (spec_phyWrite (by decide) rfl rfl _)).bind fun _ ↦ ?_
  refine (spec_under hev (spec_readEcon1 rfl)).bind fun v ↦ spec_at_pure fun hv ↦ ?_
  subst hv
  exact (spec_switchOn hev hR h₀ rfl).uart (fun _ ↦ (lawful_under hev).stable_at hR) fun _ _ _ h ↦ h

end Environment

/-- The driver's record after `enc28j60_init`. -/
def initialized (d : Enc28j60T) : Enc28j60T where
  bank := .bank3
  encHeader := d.encHeader
  nextRxPacketPtr := rxBufferStartAddr
  txBuffPtr := txBufferStartAddr

/-- `x` is the chip as the reset found it; the self-test resets a second time. -/
def Booted (si : Silicon) (LL_TEST : Bool) (mac : MacAddrT) (P : Chip → Prop) (c : Chip) : Prop :=
  ∃ x y : Chip, P x ∧ y.mem = (if LL_TEST then probed x.mem 4 else x.mem) ∧
    Evolves si (awake (boot si mac (y.reset si))) c

/-- Initialisation from any state whatsoever, the bus included, in any environment. -/
theorem does_init_under {E : Type} {ev : E → Chip → Chip} (hev : Natural si ev) (LL_TEST : Bool)
    (mac : MacAddrT) {P : Chip → Prop} {R : Chip → Chip → Prop}
    (hP : (benchUnder ev tot si).Stable P) (hR : ∀ c₀, (benchUnder ev tot si).Stable (R c₀))
    (h₀ : ∀ c₀, R c₀ c₀) {s : Bus Chip} (h : P s.chip) :
    (benchUnder ev tot si).Does (enc28j60Init LL_TEST mac) (fun _ d' s' ↦ s'.window = .high ∧
      At (benchUnder ev tot si) (initialized d) (fun c ↦ ∃ x y : Chip, P x ∧
        y.mem = (if LL_TEST then probed x.mem 4 else x.mem) ∧
        R (awake (boot si mac (y.reset si))) c) d' s'.chip) d s := by
  refine Machine.dwp_bind.mpr (Machine.dwp_modify.mpr (Machine.dwp_bind.mpr ?_))
  refine Machine.dwp_perform.mpr fun es ↦ ⟨trivial, ?_⟩
  let e : Enc28j60T := { d with
    bank := .common, nextRxPacketPtr := rxBufferStartAddr, txBuffPtr := txBufferStartAddr }
  let s₁ : Bus Chip := ⟨.high, ((benchUnder ev tot si).machine.disturb es s).chip⟩
  have hreset := spec_reset (d := e) hev hP rfl e s₁ (.inl rfl) ⟨rfl, hP.disturb es s h⟩
  refine Machine.dwp_bind.mpr (Machine.dwp_mono hreset ?_)
  rintro - d' s' ⟨hw, rfl, hcoh, x, hx, hc⟩
  have hprogram (y : Chip) (d : Enc28j60T) : (benchUnder ev tot si).Spec
      (At (benchUnder ev tot si) d (Same (y.reset si))) (programRegisters mac)
      fun _ ↦ At (benchUnder ev tot si) { d with bank := .bank3 }
        (R (awake (boot si mac (y.reset si)))) := spec_programRegisters hev (hR _) (h₀ _)
  cases LL_TEST with
  | false =>
    refine Machine.dwp_mono (hprogram x e e s' (.inl hw) ⟨rfl, hcoh, hc⟩) ?_
    rintro - d' s' ⟨hw, rfl, hcoh, hc⟩
    exact ⟨hw, rfl, hcoh, x, x, hx, rfl, hc⟩
  | true =>
    refine Machine.dwp_bind.mpr (Machine.dwp_mono
      (spec_under hev spec_llTest e s' (.inl hw) ⟨rfl, hcoh, hc⟩) ?_)
    rintro - d' s' ⟨hw, rfl, hcoh, y, hy, hc⟩
    refine Machine.dwp_mono (hprogram y _ _ s' (.inl hw) ⟨rfl, hcoh, hc⟩) ?_
    rintro - d' s' ⟨hw, rfl, hcoh, hc⟩
    exact ⟨hw, rfl, hcoh, x, y, hx, hy, hc⟩

theorem does_init (LL_TEST : Bool) (mac : MacAddrT) {P : Chip → Prop} (hP : (bench tot si).Stable P)
    {s : Bus Chip} (h : P s.chip) :
    (bench tot si).Does (enc28j60Init LL_TEST mac) (fun _ d' s' ↦ s'.window = .high ∧
      At (bench tot si) (initialized d) (Booted si LL_TEST mac P) d' s'.chip) d s :=
  does_init_under natural_act LL_TEST mac hP (fun _ ↦ stable_evolves) (fun _ ↦ ⟨[], rfl⟩) h

/-- The chip of the data sheet on the bus, with its own events. -/
abbrev live (si : Silicon) : Machine Io Io.Resp (Bus Chip) Event := Port.machine (chip si) (Event.act si)

/-- `enc28j60_init` has returned, having started from any state. -/
def Initialized (si : Silicon) (LL_TEST : Bool) (mac : MacAddrT) (d : Enc28j60T) (s : Bus Chip) : Prop :=
  ∃ d₀ s₀ σ, (live si).Returns σ ((enc28j60Init LL_TEST mac).run d₀) s₀ ((), d) s

theorem Initialized.booted {LL_TEST : Bool} {s : Bus Chip} (h : Initialized si LL_TEST mac d s) :
    s.window = .high ∧ (∃ d₀, d = initialized d₀) ∧ Coherent (chip si) d s.chip ∧
      Booted si LL_TEST mac (fun _ ↦ True) s.chip := by
  obtain ⟨d₀, s₀, σ, hr⟩ := h
  have hinit : (bench False si).Does (enc28j60Init LL_TEST mac) (fun _ d' s' ↦ s'.window = .high ∧
      At (bench False si) (initialized d₀) (Booted si LL_TEST mac fun _ ↦ True) d' s'.chip) d₀ s₀ :=
    does_init LL_TEST mac (fun _ _ _ ↦ trivial) trivial
  obtain ⟨hw, rfl, hcoh, hb⟩ := Machine.dwp_returns hinit hr
  exact ⟨hw, ⟨d₀, rfl⟩, hcoh, hb⟩

/-- Initialisation comes to an end from every state. -/
theorem exists_initialized (si : Silicon) (LL_TEST : Bool) (mac : MacAddrT) :
    ∃ d s, Initialized si LL_TEST mac d s := by
  have hinit : (bench True si).Does (enc28j60Init LL_TEST mac) (fun _ _ _ ↦ True)
      ⟨.common, ⟨0, 0, 0⟩, 0, 0⟩ ⟨.high, blank⟩ :=
    Machine.dwp_mono (does_init LL_TEST mac (P := fun _ ↦ True) (fun _ _ _ ↦ trivial) trivial)
      fun _ _ _ _ ↦ trivial
  obtain ⟨⟨⟩, d, s, hr, -⟩ := Machine.dwp_total hinit fun _ ↦ []
  exact ⟨d, s, _, _, _, hr⟩

end Enc28j60.Boot
