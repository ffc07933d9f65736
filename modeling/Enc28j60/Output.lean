import Enc28j60.Ethernetif
import Enc28j60.Sending

namespace Enc28j60.Output

open Interaction RegisterMap SpiSlave Port LowLayer Interface Access Banking DataSheet Transfers
open Quiet Boot Operation Procedures CircularMemory Enc28j60.Ring Transmission Integrity Sending
open Lwip Ethernetif

variable {si : Silicon} {c : Chip} {d : Enc28j60T} {s : Bus Chip} {t : Side} {m : Memory} {p : List Ptr}

section Segments

/-- What `low_level_output` writes for a chain: the control byte and the segments. -/
def segments (m : Memory) (p : List Ptr) : List ((ℤ → Byte) × Word) :=
  (fun _ ↦ 0x00, 1) :: p.map fun q ↦ (data (m.pbuf q), (m.pbuf q).len)

theorem forM_segments (m : Memory) (p : List Ptr) :
    (p.map fun q ↦ (data (m.pbuf q), (m.pbuf q).len)).forM (fun x ↦ enc28j60WriteToTx x.1 x.2) =
      p.forM fun q ↦ enc28j60WriteToTx (data (m.pbuf q)) (m.pbuf q).len := by
  induction p with
  | nil => rfl
  | cons q p ih => exact congrArg (enc28j60WriteToTx _ _ >>= fun _ ↦ ·) ih

variable {C E : Type} {tot : Prop}

/-- The chain is sent like the chunks it consists of. -/
theorem does_lowLevelOutput {M : Machine Io Io.Resp (Bus C) E} {G : Io → Bus C → Prop} {s : Bus C}
    {Q : ErrT → Enc28j60T → Bus C → Prop} (netif : Netif)
    (h : M.dwp G tot (sendChunks (segments m p)) (fun _ ↦ Q .ok) d s) :
    M.dwp G tot (lowLevelOutput netif m p) Q d s := by
  have hforM := forM_segments m p
  rw [sendChunks, segments, Machine.dwp_bind] at h
  rw [lowLevelOutput, Machine.dwp_bind]
  refine Machine.dwp_mono h fun _ d s h ↦ ?_
  rw [Machine.dwp_bind] at h ⊢
  change M.dwp G tot (_ >>= fun _ ↦ List.forM _ _) _ _ _ at h
  rw [Machine.dwp_bind, hforM] at h
  refine Machine.dwp_mono h fun _ d s h ↦ Machine.dwp_bind.mpr (Machine.dwp_mono h fun _ d s h ↦ ?_)
  exact Machine.dwp_bind.mpr h

theorem chunkBytes_segments (m : Memory) (p : List Ptr) : chunkBytes (segments m p) = 0x00 :: payloads m p := by
  have hdata (q : Ptr) : contents (data (m.pbuf q)) (m.pbuf q).len.toNat =
      (List.range (m.pbuf q).len.toNat).map fun i ↦ (m.pbuf q).store ((m.pbuf q).payload + i) := rfl
  simp only [chunkBytes, segments, payloads, List.map_cons, List.map_map, List.flatten_cons, Function.comp_def, hdata]
  rfl

theorem length_payloads (m : Memory) (p : List Ptr) :
    (payloads m p).length = (p.map fun q ↦ (m.pbuf q).len.toNat).sum := by
  simp only [payloads, List.length_flatMap, List.length_map, List.length_range]

end Segments

section Frames

variable {LL_TEST : Bool} {mac : MacAddrT} {l : List (Call × Option (Word × (ℕ → Byte)))} {bs : List Byte}

theorem fetch_shot (v : Word) : ((t.fill base bs).shot si v).regs (ERDPTL.cell 0) = t.regs (ERDPTL.cell 0) ∧
    ((t.fill base bs).shot si v).regs (ERDPTL.cell 1) = t.regs (ERDPTL.cell 1) := by
  simp (disch := decide) only [Side.shot, Side.launched, Side.fill, Side.put, Function.update_of_ne, and_self]

/-- A transmission writes nothing but the transmit buffer. -/
theorem stored_shot (hn : 1 ≤ bs.length) (hn' : bs.length ≤ 2041) :
    ∃ new, ((t.fill base bs).shot si (BitVec.ofNat 16 (base + bs.length) - 1)).stored = t.stored ++ new ∧
      ∀ a ∈ new, txBufferStartAddr.toNat ≤ a ∧ a ≤ 0x1fff := by
  obtain ⟨hlast, -, -⟩ := frame_end hn hn'
  have hbase : base = 0x1800 := rfl
  have hstart : txBufferStartAddr.toNat = 0x1800 := rfl
  refine ⟨_, List.append_assoc _ _ _, fun a ha ↦ ?_⟩
  rw [hlast, List.mem_append, List.mem_map, List.mem_map] at ha
  rcases ha with ⟨i, hi, rfl⟩ | ⟨i, hi, rfl⟩
  all_goals
    rw [List.mem_range] at hi
    unfold Chip.memAddr memSize
    omega

theorem does_output {E : Type} {ev : E → Chip → Chip} {tot : Prop} {X : Chip → Prop} (hev : Acts si ev)
    (hX : Beside si ev 0x1800 X) (netif : Netif) (m : Memory) (p : List Ptr) (hn : (payloads m p).length ≤ 2040)
    (hs : s.window = .high) (hc : Coherent (chip si) d s.chip) (h : Outgoing 0x1800 X 0x04 t s.chip) :
    (station unwatched ev tot si).Does (lowLevelOutput netif m p) (fun r d' s' ↦ r = .ok ∧
      s'.window = .high ∧
      At (station unwatched ev tot si) { d with bank := .bank0, txBuffPtr := txBufferStartAddr }
        (Outgoing 0x1800 X 0x04 ((t.fill base (0x00 :: payloads m p)).shot si
          (BitVec.ofNat 16 (base + (0x00 :: payloads m p).length) - 1))) d' s'.chip) d s := by
  have hbytes := chunkBytes_segments m p
  have hsend : (station unwatched ev tot si).Does (sendChunks (segments m p)) _ d s :=
    does_sendChunks hev hX _ (hbytes ▸ Nat.le_add_left _ _) (hbytes ▸ Nat.succ_le_succ hn) hs hc h
  rw [hbytes] at hsend
  exact does_lowLevelOutput netif (Machine.dwp_mono hsend fun _ _ _ h ↦ ⟨rfl, h⟩)

/-- A chain within the announced size goes out as one frame, and nothing else changes on the chip but
the transmit side and what arrives meanwhile. -/
theorem output_sent (h : Runs si LL_TEST mac l d s) (netif : Netif) (m : Memory) (p : List Ptr)
    (hp : (p.map fun q ↦ (m.pbuf q).len.toNat).sum ≤
      (ethernetifInit netif).2.mtu.toNat + sizeofEthHdr.toNat) (σ : ℕ → List Event) :
    ∃ d' s', (live si).Returns σ ((lowLevelOutput (ethernetifInit netif).2 m p).run d) s (.ok, d') s' ∧
      s'.chip.sent = s.chip.sent ++ [⟨0x00, payloads m p⟩] ∧
      (∃ new, s'.chip.stored = s.chip.stored ++ new ∧
        ∀ a ∈ new, txBufferStartAddr.toNat ≤ a ∧ a ≤ 0x1fff) ∧
      (∀ o ∈ [(0 : Byte), 1], s'.chip.regs (ERDPTL.cell o) = s.chip.regs (ERDPTL.cell o)) ∧
      s'.chip.erxrdpt = s.chip.erxrdpt ∧
      (∃ fs, s'.chip.accepted = s.chip.accepted ++ fs ∧
        s'.chip.epktcnt = s.chip.epktcnt + BitVec.ofNat 8 fs.length) ∧
      d'.nextRxPacketPtr = d.nextRxPacketPtr ∧ d'.txBuffPtr = txBufferStartAddr := by
  obtain ⟨hw, hcoh, hX, hout⟩ := outgoing_runs h
  have hsize : (payloads m p).length ≤ 1514 := by
    rw [length_payloads]
    exact hp
  have hone : 1 ≤ ((0x00 : Byte) :: payloads m p).length := Nat.le_add_left _ _
  have hfit : ((0x00 : Byte) :: payloads m p).length ≤ 2041 :=
    Nat.le_trans (Nat.succ_le_succ hsize) (by decide)
  have houtput : (station unwatched (Event.act si) True si).Does
      (lowLevelOutput (ethernetifInit netif).2 m p) _ d s :=
    does_output acts_act hX _ m p (Nat.le_trans hsize (by decide)) hw hcoh hout
  obtain ⟨r, d', s', hr, rfl, -, rfl, -, hafter⟩ := Machine.dwp_total houtput σ
  obtain ⟨hlast, -, -⟩ := frame_end hone hfit
  refine ⟨_, s', hr, ?_, ?_, ?_, ?_, ?_, rfl, rfl⟩
  · rw [hafter.sent]
    refine congrArg (fun f ↦ s.chip.sent ++ [f]) (Side.frame_fill ?_ ?_)
    · exact Nat.lt_of_le_of_lt (Nat.add_le_add_left hfit base) (by decide)
    · rw [hlast]
      rfl
  · rw [hafter.stored]
    exact stored_shot hone hfit
  · simp only [List.forall_mem_cons, List.not_mem_nil, false_implies, implies_true, and_true]
    rw [hafter.regs _ (by decide), hafter.regs _ (by decide)]
    exact fetch_shot _
  · obtain ⟨fs, -, -, halike⟩ := hafter.ring
    rw [halike.erxrdpt, erxrdpt_arrivals]
  · obtain ⟨fs, hacc, hcount, -⟩ := hafter.ring
    exact ⟨fs, hacc, hcount⟩

/-- Three buffers, the second of them empty. -/
def threeBuffers : Memory :=
  ⟨[], [], [0, 1, 2], fun x ↦ ⟨fun i ↦ BitVec.ofNat 8 (x + i), 0, 0, if x = 1 then 0 else 2, 0x80, 0, 1, 0⟩⟩

theorem output_sent_initialized : ∃ (netif : Netif) (d d' : Enc28j60T) (s s' : Bus Chip),
    (live specimen).Returns (fun _ ↦ [])
      ((lowLevelOutput (ethernetifInit netif).2 threeBuffers [0, 1, 2]).run d) s (.ok, d') s' ∧
      s'.chip.sent = s.chip.sent ++ [⟨0x00, [0, 1, 2, 3]⟩] := by
  obtain ⟨d, s, hi⟩ := exists_initialized specimen true ⟨0x02, 0, 0, 0, 0, 0x01⟩
  obtain ⟨d', s', hr, hsent, -⟩ :=
    output_sent (.start hi) ⟨(0, 0), 0, ⟨0, 0, 0, 0, 0, 0⟩, 0, 0⟩ threeBuffers [0, 1, 2] (by decide) fun _ ↦ []
  exact ⟨_, d, d', s, s', hr, hsent⟩

end Frames

end Enc28j60.Output
