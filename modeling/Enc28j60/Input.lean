import Enc28j60.Ethernetif
import Enc28j60.Traffic

namespace Enc28j60.Input

open Interaction RegisterMap SpiSlave Port LowLayer Interface Access Banking DataSheet Transfers
open Quiet Boot Startup Operation Procedures Enc28j60.Ring Reception Delivery Transmission Integrity Sending Traffic
open Lwip Ethernetif

variable {si : Silicon} {c : Chip} {d : Enc28j60T} {s : Bus Chip} {gone : List Frame} {f : Frame}
  {m : Memory} {content : List Byte}

section Pending

/-- The frame that the next call to find a packet is to deliver carries `content`, and its CRC. -/
def Pending (content : List Byte) (c : Chip) : Prop :=
  ∃ f crc, c.accepted[taken c]? = some f ∧ crc.length = 4 ∧ f.bytes = content ++ crc

/-- A call that finds the frame `f` pending delivers it. -/
theorem does_receive_pending {tot : Prop} (h : Docked gone d s.chip) (hw : s.window = .high)
    (hf : s.chip.accepted[taken s.chip]? = some f) (buf : ℕ → Byte) (maxlen : Word) :
    (live si).dwp (fun _ _ ↦ True) tot (enc28j60ReceivePacket buf maxlen)
      (fun r _ _ ↦ r = delivery f buf maxlen) d s := by
  obtain ⟨rs, hring⟩ := h.ring
  rw [h.counts, hring.accepted, List.getElem?_append_right (Nat.le_refl _), Nat.sub_self] at hf
  obtain ⟨rs, rfl⟩ : ∃ rs', rs = f :: rs' := by
    cases rs with
    | nil => cases hf
    | cons g rs =>
      cases hf
      exact ⟨rs, rfl⟩
  have haside : Aside (Event.act si) fun c ↦ gone ++ f :: rs <+: c.accepted := by
    refine ⟨fun e c _ h ↦ ?_, fun c c' _ ha _ _ h ↦ by rwa [ha]⟩
    cases e with
    | arrive g =>
      simp only [Event.act, Chip.arrive]
      split
      · exact h.trans (List.prefix_append _ _)
      · exact h
    | txDone =>
      simp only [Event.act]
      split <;> exact h
  have hnone (c : Chip) (hacc : gone ++ f :: rs <+: c.accepted) (hgone : c.accepted = gone) : False := by
    have hlen := hacc.length_le
    rw [hgone, List.length_append, List.length_cons] at hlen
    omega
  have hcall : (station (vigil gone) (Event.act si) tot si).Does (enc28j60ReceivePacket buf maxlen) _ d s :=
    does_receive acts_act haside h (hring.accepted ▸ List.prefix_refl _) hw buf maxlen hnone
  refine Machine.dwp_mono (Machine.dwp_guard hcall fun _ _ _ ↦ trivial) ?_
  intro r d' s' h'
  obtain ⟨-, hacc, -, ⟨hfalse, -⟩ | ⟨b, g, -, rfl, -, hd⟩⟩ := h'
  · exact hfalse.elim
  · obtain ⟨rs', hring'⟩ := hd.ring
    rw [hring'.accepted, List.append_assoc, List.prefix_append_right_inj] at hacc
    have hfg : f = g := (List.cons_prefix_cons.mp hacc).1
    rw [hfg]

end Pending

section Buffers

/-- The chain handed to the stack is the frame. -/
def Delivered (content : List Byte) (r : Option (List Ptr)) (m : Memory) : Prop :=
  ∃ x p, r = some (x :: p) ∧ (m.pbuf x).totLen.toNat = content.length ∧
    ((x :: p).map fun q ↦ (m.pbuf q).len.toNat).sum = content.length ∧ payloads m (x :: p) = content

/-- The room in the buffers of the pool. -/
def poolRoom : ℕ := pbufPoolBufsize.toNat * pbufPoolSize

/-- What `low_level_input` makes of the bytes received. -/
def handOver (m : Memory) (r : Word × (ℕ → Byte)) : Option (List Ptr) × (ℕ → Byte) × Memory :=
  if r.1 = 0 then (none, r.2, m)
  else
    match pbufAlloc pbufRaw r.1 m with
    | (none, m) => (none, r.2, m)
    | (some p, m) => (some p, r.2, (pbufTake p r.2 r.1 m).2)

theorem map_overlay (content : List Byte) (buf : ℕ → Byte) :
    (List.range content.length).map (overlay content buf) = content := by
  refine List.ext_getElem (by rw [List.length_map, List.length_range]) fun i h h' ↦ ?_
  rw [List.getElem_map, List.getElem_range]
  change content.getD i (buf i) = content[i]
  rw [List.getD_eq_getElem?_getD, List.getElem?_eq_getElem h']
  rfl

/-- With the whole pool free the chain is the frame, where the pool has room for it. -/
theorem delivered_handOver (hm : m.mempPbufPool.Perm (List.range pbufPoolSize)) (hone : 1 ≤ content.length)
    (hlen : content.length < 2 ^ 16) (hroom : content.length ≤ poolRoom)
    (buf : ℕ → Byte) :
    Delivered content (handOver m (BitVec.ofNat 16 content.length, overlay content buf)).1
      (handOver m (BitVec.ofNat 16 content.length, overlay content buf)).2.2 := by
  have hnat : (BitVec.ofNat 16 content.length).toNat = content.length := by
    rw [BitVec.toNat_ofNat]
    exact Nat.mod_eq_of_lt hlen
  have hpos : BitVec.ofNat 16 content.length ≠ 0 := by
    intro he
    rw [he] at hnat
    change 0 = content.length at hnat
    omega
  have hnd : m.mempPbufPool.Nodup := hm.nodup_iff.mpr List.nodup_range
  have hpool : m.mempPbufPool.length = pbufPoolSize := hm.length_eq.trans List.length_range
  have hne : m.mempPbufPool ≠ [] := by
    intro he
    rw [he] at hpool
    cases hpool
  obtain ⟨q, rest, m', halloc, hq, hqne, -, -, hchain⟩ := pbufAllocLoop_some (p := []) (m := m) hnd hne
    (show (BitVec.ofNat 16 content.length).toNat ≤ 256 * m.mempPbufPool.length by rw [hnat, hpool]; exact hroom)
  rw [List.nil_append] at halloc
  rw [hnat] at hchain
  obtain ⟨x, p, rfl⟩ := List.exists_cons_of_ne_nil hqne
  have hqnd : (x :: p).Nodup := by
    rw [hq] at hnd
    exact (List.nodup_append.mp hnd).1
  have htot : ¬(m'.pbuf x).totLen < BitVec.ofNat 16 content.length := by
    rw [BitVec.lt_def, hnat, hchain.1]
    exact Nat.lt_irrefl _
  have htake : Chained (pbufTakeLoop (overlay content buf) (x :: p) content.length 0 m') _ _ ∧ _ :=
    pbufTakeLoop_spec hchain hqnd
  obtain ⟨hchain', hbytes⟩ := htake
  have halloc : pbufAlloc pbufRaw (BitVec.ofNat 16 content.length) m = (some (x :: p), m') := halloc
  simp only [handOver, hpos, if_false, halloc, pbufTake, htot, hnat]
  refine ⟨x, p, rfl, hchain'.1, hchain'.sum, ?_⟩
  simpa only [Nat.zero_add, map_overlay] using hbytes

/-- A frame that is larger than the pool is dropped. -/
theorem handOver_none (hm : m.mempPbufPool.Perm (List.range pbufPoolSize)) (hlen : content.length < 2 ^ 16)
    (hroom : poolRoom < content.length) (buf : ℕ → Byte) :
    (handOver m (BitVec.ofNat 16 content.length, overlay content buf)).1 = none := by
  have hnat : (BitVec.ofNat 16 content.length).toNat = content.length := by
    rw [BitVec.toNat_ofNat]
    exact Nat.mod_eq_of_lt hlen
  have hpool : m.mempPbufPool.length = pbufPoolSize := hm.length_eq.trans List.length_range
  have halloc : (pbufAlloc pbufRaw (BitVec.ofNat 16 content.length) m).1 = none := by
    refine (pbufAllocLoop_none (p := []) nofun (hm.nodup_iff.mpr List.nodup_range) ?_).1
    rw [hnat, hpool]
    exact hroom
  unfold handOver
  split
  · rfl
  · generalize pbufAlloc pbufRaw (BitVec.ofNat 16 content.length) m = r at halloc
    obtain ⟨o, m'⟩ := r
    cases halloc
    rfl

end Buffers

section Frames

variable {LL_TEST : Bool} {mac : MacAddrT} {l : List (Call × Option (Word × (ℕ → Byte)))}

theorem lowLevelInput_eq (netif : Netif) (buf : ℕ → Byte) (bufSize : Word) :
    lowLevelInput netif buf bufSize m =
      enc28j60ReceivePacket buf bufSize >>= fun r ↦ pure (handOver m r) := by
  refine congrArg (enc28j60ReceivePacket buf bufSize >>= ·) (funext fun r ↦ ?_)
  obtain ⟨len, buf'⟩ := r
  by_cases hlen : len = 0
  · simp only [handOver, hlen, if_true]
  · rcases halloc : pbufAlloc pbufRaw len m with ⟨_ | p, m'⟩
    · simp only [handOver, hlen, if_false, halloc]
    · simp only [handOver, hlen, if_false, halloc]

theorem does_input {tot : Prop} (h : Docked gone d s.chip) (hw : s.window = .high)
    (hp : Pending content s.chip) (hlen : content.length ≤ 1514) (netif : Netif) (buf : ℕ → Byte) :
    (live si).dwp (fun _ _ ↦ True) tot (lowLevelInput netif buf ethBufferSize m)
      (fun r _ _ ↦ r = handOver m (BitVec.ofNat 16 content.length, overlay content buf)) d s := by
  obtain ⟨f, crc, hf, hcrc, hbytes⟩ := hp
  rw [lowLevelInput_eq]
  refine Machine.dwp_bind.mpr (Machine.dwp_mono (does_receive_pending h hw hf buf ethBufferSize) ?_)
  intro r d' s' hr
  have hmin : min (f.bytes.length - 4) ethBufferSize.toNat = content.length := by
    change min (f.bytes.length - 4) 1520 = content.length
    rw [hbytes, List.length_append, hcrc]
    omega
  have htake : f.bytes.take content.length = content := by
    rw [hbytes, List.take_left]
  have hdelivery : r = (BitVec.ofNat 16 content.length, overlay content buf) := by
    rw [hr, delivery, hmin, htake]
  rw [hdelivery]
  rfl

/-- A frame of any announced size is taken out of the chip, and it is delivered to the stack exactly
when the pool has room for it. -/
theorem delivered_iff (h : Trades si LL_TEST mac l d s) (netif : Netif) (hp : Pending content s.chip)
    (hone : 1 ≤ content.length)
    (hlen : content.length ≤ (ethernetifInit netif).2.mtu.toNat + sizeofEthHdr.toNat)
    (hm : m.mempPbufPool.Perm (List.range pbufPoolSize)) (buf : ℕ → Byte) (σ : ℕ → List Event) :
    ∃ r buf' m' d' s', (live si).Returns σ
        ((lowLevelInput (ethernetifInit netif).2 buf ethBufferSize m).run d) s ((r, buf', m'), d') s' ∧
      (Delivered content r m' ↔ content.length ≤ poolRoom) := by
  obtain ⟨gone, hpost⟩ := posted_trades h (sideOf s.chip)
  have hinput : (live si).dwp _ True (lowLevelInput (ethernetifInit netif).2 buf ethBufferSize m) _ d s :=
    does_input hpost.docked hpost.window hp hlen _ buf
  obtain ⟨⟨r, buf', m'⟩, d', s', hr, hres⟩ := Machine.dwp_total hinput σ
  have hshort : content.length < 2 ^ 16 := Nat.lt_of_le_of_lt hlen (show 1514 < 2 ^ 16 by decide)
  refine ⟨r, buf', m', d', s', hr, fun hd ↦ ?_, fun hroom ↦ ?_⟩
  · by_contra hroom
    have hnone := handOver_none hm hshort (Nat.lt_of_not_le hroom) buf
    rw [← hres] at hnone
    obtain ⟨x, p, hsome, -⟩ := hd
    cases hnone.symm.trans hsome
  · have hd := delivered_handOver hm hone hshort hroom buf
    rwa [← hres] at hd

/-- Every frame of an announced size can be the next one. -/
theorem exists_pending (si : Silicon) (LL_TEST : Bool) (mac : MacAddrT) (content : List Byte) (hone : 1 ≤ content.length)
    (hlen : content.length ≤ 1514) :
    ∃ d s, Trades si LL_TEST mac [] d s ∧ Pending content s.chip := by
  have hinit : (benchUnder PhyWrites.still True si).Does (enc28j60Init LL_TEST mac) _ ⟨.common, ⟨0, 0, 0⟩, 0, 0⟩
      ⟨.high, blank⟩ :=
    does_init_under natural_still LL_TEST mac (P := fun _ ↦ True) (R := fun c₀ c ↦ c = c₀)
      nofun (fun _ ↦ nofun) (fun _ ↦ rfl) trivial
  obtain ⟨⟨⟩, d, s, ⟨n, hr⟩, -, -, -, x, y, -, -, hs⟩ := Machine.dwp_total hinit fun _ ↦ []
  have hi : Initialized si LL_TEST mac d s := by
    refine ⟨⟨.common, ⟨0, 0, 0⟩, 0, 0⟩, ⟨.high, blank⟩, fun _ ↦ [], n, ?_⟩
    rw [← hr]
    exact (Machine.run_calm (live si) (benchUnder PhyWrites.still True si).machine rfl n _).symm
  let f : Frame := ⟨content ++ [0, 0, 0, 0], 0⟩
  have hbytes : f.bytes.length = content.length + 4 := List.length_append
  have hring : Ringed [] [] 0 s.chip := hs ▸ ringed_boot y
  have hlaid : Laid s.chip := hs ▸ laid_boot y
  have hfree : s.chip.free = 0x17ff := hring.free hlaid
  have hacc : Accepts s.chip f := by
    refine ⟨?_, ?_, by omega, ?_⟩
    · have hecon1 : (awake (boot si mac (y.reset si))).econ1 = 0x07 := by
        simp only [Chip.econ1, awake, Function.update_self]
      rw [hs, Chip.rxen, hecon1]
      rfl
    · intro he
      have hcount := hring.epktcnt
      rw [he] at hcount
      cases hcount
    · rw [hfree, Frame.span, hbytes]
      omega
  obtain ⟨-, hdock, -⟩ := docked_initialized hi
  refine ⟨d, _, .event (.start hi) (.arrive f), f, [0, 0, 0, 0], ?_, rfl, rfl⟩
  have htaken : taken (s.chip.arrive f) = 0 := by
    rw [taken, counts_arrive]
    exact hdock.counts
  change (s.chip.arrive f).accepted[taken (s.chip.arrive f)]? = some f
  rw [htaken, hlaid.arrive_eq hacc, hring.accepted]
  rfl

/-- The stack's memory as `lwip_init` leaves it: the whole pool is free. -/
def wholePool : Memory :=
  ⟨(List.range pbufPoolSize).reverse, [], [], fun _ ↦ ⟨fun _ ↦ 0, 0, 0, 0, 0, 0, 0, 0⟩⟩

def someNetif : Netif := ⟨(0, 0), 0, ⟨0, 0, 0, 0, 0, 0⟩, 0, 0⟩

theorem delivered_iff_specimen : ∃ (d d' : Enc28j60T) (s s' : Bus Chip) (r : Option (List Ptr))
    (buf' : ℕ → Byte) (m' : Memory), (live specimen).Returns (fun _ ↦ [])
      ((lowLevelInput (ethernetifInit someNetif).2 (fun _ ↦ 0) ethBufferSize wholePool).run d) s
      ((r, buf', m'), d') s' ∧ Delivered (List.replicate 60 7) r m' := by
  obtain ⟨d, s, h, hp⟩ := exists_pending specimen true ⟨0x02, 0, 0, 0, 0, 0x01⟩
    (List.replicate 60 7) (by decide) (by decide)
  obtain ⟨r, buf', m', d', s', hr, hiff⟩ := delivered_iff h someNetif hp (by decide)
    (by decide) (m := wholePool) (List.reverse_perm _) (fun _ ↦ 0) fun _ ↦ []
  exact ⟨d, d', s, s', r, buf', m', hr, hiff.mpr (by decide)⟩

/-- A frame of 257 bytes is lost, though it is far below the announced size. -/
theorem not_delivered_257 : ¬∀ (content : List Byte) (d d' : Enc28j60T) (s s' : Bus Chip) (buf buf' : ℕ → Byte)
    (m m' : Memory) (r : Option (List Ptr)), Trades specimen true ⟨0x02, 0, 0, 0, 0, 0x01⟩ [] d s →
    Pending content s.chip → 1 ≤ content.length →
    content.length ≤ (ethernetifInit someNetif).2.mtu.toNat + sizeofEthHdr.toNat →
    m.mempPbufPool.Perm (List.range pbufPoolSize) →
    (live specimen).Returns (fun _ ↦ []) ((lowLevelInput (ethernetifInit someNetif).2 buf ethBufferSize m).run d) s
      ((r, buf', m'), d') s' → Delivered content r m' := by
  intro hall
  obtain ⟨d, s, h, hp⟩ := exists_pending specimen true ⟨0x02, 0, 0, 0, 0, 0x01⟩
    (List.replicate 257 7) (by rw [List.length_replicate]; decide) (by rw [List.length_replicate]; decide)
  have hlen : (List.replicate 257 (7 : Byte)).length ≤ 1514 := by
    rw [List.length_replicate]
    decide
  obtain ⟨gone, hpost⟩ := posted_trades h (sideOf s.chip)
  have hinput : (live specimen).dwp _ True
      (lowLevelInput (ethernetifInit someNetif).2 (fun _ ↦ 0) ethBufferSize wholePool) _ d s :=
    does_input hpost.docked hpost.window hp hlen _ _
  obtain ⟨⟨r, buf', m'⟩, d', s', hr, hres⟩ := Machine.dwp_total hinput fun _ ↦ []
  have hpool : wholePool.mempPbufPool.Perm (List.range pbufPoolSize) := List.reverse_perm _
  have hroom : poolRoom < (List.replicate 257 (7 : Byte)).length := by
    rw [List.length_replicate]
    decide
  have hnone := handOver_none hpool (Nat.lt_of_le_of_lt hlen (by decide)) hroom fun _ ↦ 0
  rw [← hres] at hnone
  obtain ⟨x, p, hsome, -⟩ := hall _ d d' s s' _ buf' _ m' r h hp (by rw [List.length_replicate]; decide) hlen
    hpool hr
  cases hnone.symm.trans hsome

end Frames

end Enc28j60.Input
