import Enc28j60.Interaction.Session
import Enc28j60.Reception
import Enc28j60.Startup

namespace Enc28j60.Delivery

open Interaction RegisterMap SpiSlave Port LowLayer Interface Access Banking DataSheet Transfers
open Quiet Boot Enc28j60.Configuration Startup Operation Procedures Enc28j60.Ring Reception

variable {si : Silicon} {c : Chip} {d : Enc28j60T} {s : Bus Chip} {gone : List Frame}

section Calls

/-- What a call of `enc28j60_receive_packet` is to make of the frame `f`: the CRC is cut off, and
nothing is stored behind the bytes returned. -/
def delivery (f : Frame) (buf : ℕ → Byte) (maxlen : Word) : Word × (ℕ → Byte) :=
  let n := min (f.bytes.length - 4) maxlen.toNat
  (BitVec.ofNat 16 n, overlay (f.bytes.take n) buf)

/-- Between the calls: the frames `gone` have been delivered, and the driver stands at the next. -/
structure Docked (gone : List Frame) (d : Enc28j60T) (c : Chip) : Prop where
  bank : d.bank ≠ .common ∧ c.econ1.setWidth 2 = d.bank.bits
  nextRx : d.nextRxPacketPtr = BitVec.ofNat 16 (wrap (extent gone))
  laid : Laid c
  idle : c.txrts = false
  counts : taken c = gone.length
  ring : ∃ rs, Ringed gone rs 0 c

theorem Docked.event (h : Docked gone d c) (e : Event) : Docked gone d (e.act si c) := by
  have hregs : (e.act si c).regs = c.regs := regs_event h.idle
  have hecon1 : (e.act si c).econ1 = c.econ1 := congrFun hregs _
  obtain ⟨rs, hr⟩ := h.ring
  refine ⟨?_, h.nextRx, h.laid.congr fun x _ ↦ congrFun hregs x, ?_, ?_, ?_⟩
  · rw [hecon1]
    exact h.bank
  · rw [Chip.txrts, hecon1]
    exact h.idle
  · rw [taken, counts_event]
    exact h.counts
  · cases e with
    | arrive f =>
      obtain ⟨new, hn⟩ := hr.arrive h.laid f
      exact ⟨rs ++ new, hn⟩
    | txDone =>
      simp only [Event.act, h.idle, Bool.false_eq_true, if_false]
      exact ⟨rs, hr⟩

theorem Docked.kept (h : Docked gone d c) : Kept gone c := by
  obtain ⟨rs, hr⟩ := h.ring
  exact .inl ⟨Nat.le_of_eq h.counts.symm, rs, hr⟩

variable {E : Type} {ev : E → Chip → Chip} {tot : Prop} {X : Chip → Prop}

theorem docked_of_at {w : Watch} {d₁ d' : Enc28j60T} {seen : List Byte} {R : Chip → Prop}
    (h : At (station w ev tot si) d₁ (Under seen X R) d' c) (hd : d₁.bank ≠ .common)
    (hp : d₁.nextRxPacketPtr = BitVec.ofNat 16 (wrap (extent gone)))
    (hn : (seen.filter (· ≠ 0)).length = gone.length) (hr : ∃ rs, Ringed gone rs 0 c) :
    Docked gone d' c ∧ X c := by
  obtain ⟨rfl, hcoh, hu⟩ := h
  refine ⟨⟨⟨hd, hcoh.resolve_left hd⟩, hp, hu.laid, hu.idle, ?_, hr⟩, hu.aside⟩
  rw [taken, hu.counts, hn]

/-- A call that finds no packet leaves the receive side as it is, and a call that finds one
delivers the next frame; `emptied` holds when every frame accepted has been delivered. -/
theorem does_receive {emptied : Prop} (hev : Acts si ev) (hX : Aside ev X) (h : Docked gone d s.chip)
    (hx : X s.chip) (hw : s.window = .high) (buf : ℕ → Byte) (maxlen : Word)
    (hnone : ∀ c, X c → c.accepted = gone → emptied) :
    (station (vigil gone) ev tot si).Does (enc28j60ReceivePacket buf maxlen) (fun r d' s' ↦
      s'.window = .high ∧ X s'.chip ∧ d'.txBuffPtr = d.txBuffPtr ∧
      ((emptied ∧ r = (0, buf) ∧ s'.chip.pktcntSeen = s.chip.pktcntSeen ++ [0] ∧
          s'.chip.ptr ERDPTL = s.chip.ptr ERDPTL ∧ Docked gone d' s'.chip) ∨
        ∃ b f, b ≠ 0 ∧ r = delivery f buf maxlen ∧ s'.chip.pktcntSeen = s.chip.pktcntSeen ++ [b] ∧
          Docked (gone ++ [f]) d' s'.chip)) d s := by
  obtain ⟨rs, hr⟩ := h.ring
  have hat : At (station (vigil gone) ev tot si) d
      (Under s.chip.pktcntSeen X (Counted gone (s.chip.ptr ERDPTL) 0)) d s.chip :=
    ⟨rfl, .inr h.bank.2, h.laid, h.idle, rfl, hx, rfl, rs, nofun, hr⟩
  refine Machine.dwp_mono (spec_receivePacket hev (receives hev hX h.counts h.nextRx maxlen _ hnone) d s
    (.inl hw) hat) ?_
  rintro r d' s' ⟨hw', ⟨rfl, hz⟩ | ⟨hdr, l, hlen, rfl, hz⟩⟩
  · obtain ⟨rfl, hcoh, hu⟩ := id hz
    obtain ⟨⟨he, rs, -, hr⟩, hz'⟩ := hu.stage
    have hn : ((s.chip.pktcntSeen ++ [0]).filter (· ≠ 0)).length = gone.length := by
      rw [List.filter_append, List.length_append, List.filter_cons_of_neg (by simp)]
      exact h.counts
    obtain ⟨hdock, hx'⟩ := docked_of_at hz nofun h.nextRx hn ⟨rs, hr⟩
    exact ⟨hw', hx', rfl, .inl ⟨hz' rfl, rfl, hu.counts, he, hdock⟩⟩
  · obtain ⟨rfl, hcoh, b, hb, hu⟩ := hz
    obtain ⟨f, rs, rfl, hbytes, hr⟩ := hu.stage
    have hn : ((s.chip.pktcntSeen ++ [b]).filter (· ≠ 0)).length = (gone ++ [f]).length := by
      rw [List.filter_append, List.length_append, List.filter_cons_of_pos (by simpa using hb),
        List.length_append]
      exact congrArg (· + 1) h.counts
    obtain ⟨hdock, hx'⟩ := docked_of_at ⟨rfl, hcoh, hu⟩ nofun next_eq hn ⟨rs, hr⟩
    refine ⟨hw', hx', rfl, .inr ⟨b, f, hb, ?_, hu.counts, hdock⟩⟩
    obtain ⟨hlong, hspan⟩ := hr.bounds f (by simp only [List.mem_append, List.mem_singleton, or_true, true_or])
    have hshort : f.bytes.length < 0x1800 := Nat.lt_trans (length_lt_span f) hspan
    rw [rxHeader, payloadLength_eq hlong hshort] at hlen
    have hpay : payloadLength (rxHeader gone f).byteCount maxlen =
        BitVec.ofNat 16 (min (f.bytes.length - 4) maxlen.toNat) := by
      refine BitVec.eq_of_toNat_eq ?_
      rw [rxHeader, payloadLength_eq hlong hshort, BitVec.toNat_ofNat]
      omega
    rw [hpay, delivery, hbytes, hlen]

end Calls

section Runs

variable {LL_TEST : Bool} {mac : MacAddrT} {l : List (((ℕ → Byte) × Word) × Word × (ℕ → Byte))}

theorem laid_boot (y : Chip) : Laid (awake (boot si mac (y.reset si))) := by
  have hconf : Configured si mac (initialized ⟨.common, ⟨0, 0, 0⟩, 0, 0⟩) (awake (boot si mac (y.reset si))) :=
    configured_boot y
  refine laid_of_fetch hconf.erxst hconf.erxnd ?_
  rw [hconf.econ2, si.econ2]
  rfl

theorem ringed_boot (y : Chip) : Ringed [] [] 0 (awake (boot si mac (y.reset si))) := by
  have huntouched : Untouched (boot si mac (y.reset si)) := untouched_boot y
  have hpointers : ringPointers (boot si mac (y.reset si)) = (rxBufferStartAddr, rxBufferEndAddr) :=
    ringPointers_boot y
  refine ⟨huntouched.accepted, rfl, nofun, by decide, congrArg Prod.fst hpointers,
    congrArg Prod.snd hpointers, ?_⟩
  change (boot si mac (y.reset si)).epktcnt.toNat = 0
  rw [huntouched.epktcnt]
  rfl

/-- The initialisation leaves an empty buffer, which may fill at once. -/
theorem docked_initialized (h : Initialized si LL_TEST mac d s) :
    s.window = .high ∧ Docked [] d s.chip ∧ d.txBuffPtr = txBufferStartAddr := by
  obtain ⟨hw, ⟨d₀, rfl⟩, hcoh, x, y, -, -, hev⟩ := h.booted
  have hecon1 : (awake (boot si mac (y.reset si))).econ1 = 0x07 := by
    simp only [Chip.econ1, awake, Function.update_self]
  have hcounts : (boot si mac (y.reset si)).pktcntSeen = [] := (untouched_boot y).pktcntSeen
  have hstart : Docked [] (initialized d₀) (awake (boot si mac (y.reset si))) := by
    refine ⟨⟨fun h ↦ BankT.noConfusion h, ?_⟩, rfl, laid_boot y, ?_, ?_, [], ringed_boot y⟩
    · rw [hecon1]
      exact (show (0x07 : Byte).setWidth 2 = BankT.bank3.bits by decide)
    · rw [Chip.txrts, hecon1]
      rfl
    · exact congrArg (fun l : List Byte ↦ (l.filter (· ≠ 0)).length) hcounts
  exact ⟨hw, hev.of_stable (P := Docked [] (initialized d₀)) (fun e _ hc ↦ hc.event e) hstart, rfl⟩

end Runs

end Enc28j60.Delivery
