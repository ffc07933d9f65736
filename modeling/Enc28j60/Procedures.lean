import Enc28j60.Operation

namespace Enc28j60.Procedures

open Interaction RegisterMap SpiSlave Port LowLayer Interface Access Banking DataSheet Transfers
open Quiet Boot Operation

variable {E α : Type} {ev : E → Chip → Chip} {w : Watch} {tot : Prop} {si : Silicon}
  {c : Chip} {d : Enc28j60T} {P Q F : Chip → Prop}

section Buffers

variable {n : Word}

theorem spec_fill {buf : ℤ → Byte} {W : ℕ → Chip → Prop} (hev : Acts si ev)
    (hW : ∀ k, Workable w ev (W k)) (hn : tot → n.toNat ≤ 32767)
    (ha : ∀ c, W 0 c → c.autoinc = true)
    (h : ∀ k, k < n.toNat ∨ 32767 < n.toNat → ∀ c, W k c →
      W (k + 1) (c.writeBuf (buf (BitVec.ofNat 16 k).toInt))) :
    (station w ev tot si).Spec (At (station w ev tot si) d (W 0)) (enc28j60WriteBuf buf n)
      fun _ ↦ At (station w ev tot si) d fun c ↦ n.toNat ≤ 32767 ∧ W n.toNat c := by
  refine spec_writeBuf (lawful_station hev) hn (fun k ↦ (hW k).stable) (fun c hc ↦ ?_)
    fun k hk c hc ↦ ⟨?_, h k hk c hc⟩
  · exact ⟨⟨⟨fun _ _ ↦ ha c hc, nofun⟩, .inl ⟨rfl, .inr (.inr rfl)⟩⟩, (hW 0).watched c hc,
      fun _ ↦ by decide, nofun⟩
  · exact ⟨⟨⟨nofun, fun _ ↦ (hW k).idle c hc⟩, .inr (.inr rfl)⟩, (hW k).watched c hc, nofun, nofun⟩

theorem spec_drain {buf : ℕ → Byte} {H : List Byte → Chip → Prop} (hev : Acts si ev)
    (hH : ∀ l, Workable w ev (H l)) (ha : ∀ c, H [] c → c.autoinc = true)
    (h : ∀ l, l.length < n.toNat → ∀ c, H l c → w.copy c ∧ H (l ++ [c.readBuf.1]) c.readBuf.2) :
    (station w ev tot si).Spec (At (station w ev tot si) d (H [])) (enc28j60ReadBuf buf n)
      fun r ↦ At (station w ev tot si) d fun c ↦ ∃ l, l.length = n.toNat ∧ r = overlay l buf ∧ H l c := by
  refine spec_readBuf (lawful_station hev) (fun l ↦ (hH l).stable) (fun c hc ↦ ?_)
    fun l hl c hc ↦ ⟨?_, (h l hl c hc).2⟩
  · exact ⟨⟨⟨fun _ _ ↦ ha c hc, nofun⟩, .inl ⟨rfl, .inr (.inl rfl)⟩⟩, (hH []).watched c hc,
      fun _ ↦ by decide, nofun⟩
  · exact ⟨⟨⟨nofun, nofun⟩, .inr (.inl rfl)⟩, (hH l).watched c hc, nofun, fun _ ↦ (h l hl c hc).1⟩

end Buffers

section Transmission

/-- The transmit pointers are set for a frame that ends at `v`. -/
def aim (v : Word) (c : Chip) : Chip := put ETXSTL txBufferStartAddr (put ETXNDL v c)

/-- What both send functions do once nothing is being sent: aim, start and wait. -/
theorem spec_dispatch {k : Drv α} {R : α → Enc28j60T → Chip → Prop} (hev : Acts si ev) (v : Word)
    (hP : Workable w ev P) (hF : Sends w ev si F Q)
    (h : ∀ c, P c → w.start (aim v c) ∧ F (launch si (aim v c)))
    (hk : (station w ev tot si).Spec (At (station w ev tot si) { d with bank := .bank0 }
      fun c ↦ ∃ n, Flight F Q n c) k R) :
    (station w ev tot si).Spec (At (station w ev tot si) d P) (do
      enc28j60WriteReg ETXNDL v
      enc28j60WriteReg ETXSTL txBufferStartAddr
      let tmp ← enc28j60ReadReg ECON1
      enc28j60WriteReg ECON1 (Econ1Reg.txrts.set 1 tmp)
      k) R := by
  have hend := hP.put hev (show Pointer ETXNDL by decide) v
  have haim := hend.put hev (show Pointer ETXSTL by decide) txBufferStartAddr
  rw [image_image] at haim
  refine (spec_place hev (by decide) v hP).bind fun _ ↦
    (spec_place hev (by decide) txBufferStartAddr hend).bind fun _ ↦ ?_
  rw [image_image]
  refine Setting.Spec.assoc ((spec_start hev haim hF ?_).bind fun _ ↦ hk)
  rintro - ⟨c, hc, rfl⟩
  exact h c hc

variable {buf : ℤ → Byte} {n : Word} {W : ℕ → Chip → Prop}

theorem spec_writeToTx (hev : Acts si ev) (hP : Workable w ev P) (hW : ∀ k, Workable w ev (W k))
    (hn : tot → n.toNat ≤ 32767) (h₀ : ∀ c, P c → W 0 (put EWRPTL d.txBuffPtr c))
    (ha : ∀ c, W 0 c → c.autoinc = true)
    (h : ∀ k, k < n.toNat ∨ 32767 < n.toNat → ∀ c, W k c →
      W (k + 1) (c.writeBuf (buf (BitVec.ofNat 16 k).toInt))) :
    (station w ev tot si).Spec (At (station w ev tot si) d P) (enc28j60WriteToTx buf n)
      fun _ ↦ At (station w ev tot si) { d with bank := .bank0, txBuffPtr := d.txBuffPtr + n }
        fun c ↦ n.toNat ≤ 32767 ∧ W n.toNat c := by
  have hplace : (station w ev tot si).Spec (At (station w ev tot si) d P)
      (enc28j60WriteReg EWRPTL d.txBuffPtr)
      fun _ ↦ At (station w ev tot si) (touch EWRPTL d) (W 0) := by
    refine (spec_place hev (by decide) d.txBuffPtr hP).mono (fun _ _ h ↦ h) fun _ _ _ hc ↦ ⟨hc.1, hc.2.1, ?_⟩
    obtain ⟨x, hx, hc⟩ := hc.2.2
    rw [hc]
    exact h₀ x hx
  refine spec_at_get (hplace.bind fun _ ↦ ?_)
  refine (spec_fill hev hW hn ha h).bind_modify fun _ d₁ c hc ↦ ?_
  obtain ⟨rfl, hcoh, hc⟩ := hc
  exact ⟨rfl, hcoh, hc⟩

theorem spec_readyToSend (hev : Acts si ev) (hP : Workable w ev P) (hF : Sends w ev si F Q)
    (h : ∀ c, P c → w.start (aim (d.txBuffPtr - 1) c) ∧ F (launch si (aim (d.txBuffPtr - 1) c))) :
    (station w ev tot si).Spec (At (station w ev tot si) d P) enc28j60ReadyToSend
      fun _ ↦ At (station w ev tot si) { d with bank := .bank0, txBuffPtr := txBufferStartAddr } Q := by
  refine (spec_waitIdle hev hP).bind fun _ ↦ spec_at_get (spec_dispatch hev (d.txBuffPtr - 1) hP hF h ?_)
  refine (spec_waitFlight hev hF).bind_modify fun _ d₁ c hc ↦ ?_
  obtain ⟨rfl, hcoh, hc⟩ := hc
  exact ⟨rfl, hcoh, hc⟩

theorem spec_sendPacket (hev : Acts si ev) (hP : Workable w ev P) (hW : ∀ k, Workable w ev (W k))
    (hn : tot → n.toNat ≤ 32767) (h₀ : ∀ c, P c → W 0 (put EWRPTL txBufferStartAddr c))
    (ha : ∀ c, W 0 c → c.autoinc = true)
    (h : ∀ k, k < n.toNat ∨ 32767 < n.toNat → ∀ c, W k c →
      W (k + 1) (c.writeBuf (buf (BitVec.ofNat 16 k).toInt)))
    (hF : Sends w ev si F Q) (hl : ∀ c, W n.toNat c → w.start (aim (txBufferStartAddr + n - 1) c) ∧
      F (launch si (aim (txBufferStartAddr + n - 1) c))) :
    (station w ev tot si).Spec (At (station w ev tot si) d P) (enc28j60SendPacket buf n)
      fun _ ↦ At (station w ev tot si) { d with bank := .bank0 } fun c ↦ n.toNat ≤ 32767 ∧ Q c := by
  have hplace : (station w ev tot si).Spec (At (station w ev tot si) d P)
      (enc28j60WriteReg EWRPTL txBufferStartAddr)
      fun _ ↦ At (station w ev tot si) (touch EWRPTL d) (W 0) := by
    refine (spec_place hev (by decide) txBufferStartAddr hP).mono (fun _ _ h ↦ h)
      fun _ _ _ hc ↦ ⟨hc.1, hc.2.1, ?_⟩
    obtain ⟨x, hx, hc⟩ := hc.2.2
    rw [hc]
    exact h₀ x hx
  refine hplace.bind fun _ ↦ (spec_fill hev hW hn ha h).bind fun _ ↦ spec_at_pure fun hn ↦
    (spec_waitIdle hev (hW _)).bind fun _ ↦ ?_
  refine spec_dispatch hev _ (hW _) hF hl ?_
  refine (spec_waitFlight hev hF).bind_pure fun _ d₁ c hc ↦ ?_
  obtain ⟨rfl, hcoh, hc⟩ := hc
  exact ⟨rfl, hcoh, hn, hc⟩

end Transmission

section Reception

def headerOf (l : List Byte) : EthRxHeaderT := headerOfBytes fun k ↦ l.getD k 0

theorem headerOfBytes_overlay {l : List Byte} (h : l.length = 6) (buf : ℕ → Byte) :
    headerOfBytes (overlay l buf) = headerOf l := by
  have hk (k : ℕ) (hk : k < 6) : l.getD k (buf k) = l.getD k 0 := by
    rw [List.getD_eq_getElem?_getD, List.getD_eq_getElem?_getD, List.getElem?_eq_getElem (by omega)]
    rfl
  simp only [headerOf, headerOfBytes, overlay, hk 0 (by decide), hk 1 (by decide), hk 2 (by decide),
    hk 3 (by decide), hk 4 (by decide), hk 5 (by decide)]

/-- The value `ERXRDPT` is given when the next frame starts at `next`. -/
def freedTo (next : Word) : Word := if next = rxBufferStartAddr then rxBufferEndAddr else next - 1

/-- The stages of `enc28j60_receive_packet` for a driver whose record is `d`: `V` once the packet
count is known, `H` while the header is copied, `B` while the payload is, `D` when the memory has
been given back and `Z` in the end. -/
structure Receives (w : Watch) (ev : E → Chip → Chip) (d : Enc28j60T) (maxlen : Word) (P : Chip → Prop)
    (V : Byte → Chip → Prop) (H : List Byte → Chip → Prop)
    (B D Z : EthRxHeaderT → List Byte → Chip → Prop) : Prop where
  start : Workable w ev P
  counted : ∀ b, Workable w ev (V b)
  count : ∀ c, P c → V c.epktcnt { c with pktcntSeen := c.pktcntSeen ++ [c.epktcnt] }
  header : ∀ l, Workable w ev (H l)
  payload : ∀ h l, Workable w ev (B h l)
  released : ∀ h l, Workable w ev (D h l)
  final : ∀ h l e c, Z h l c → Z h l (ev e c)
  autoinc : (∀ c, H [] c → c.autoinc = true) ∧ ∀ h c, B h [] c → c.autoinc = true
  seek : ∀ b, b ≠ 0 → ∀ c, V b c → H [] (put ERDPTL d.nextRxPacketPtr c)
  copyHeader : ∀ l, l.length < 6 → ∀ c, H l c → w.copy c ∧ H (l ++ [c.readBuf.1]) c.readBuf.2
  parse : ∀ l, l.length = 6 → ∀ c, H l c → B (headerOf l) [] c
  copyPayload : ∀ h l, l.length < (payloadLength h.byteCount maxlen).toNat → ∀ c, B h l c →
    w.copy c ∧ B h (l ++ [c.readBuf.1]) c.readBuf.2
  release : ∀ h l, l.length = (payloadLength h.byteCount maxlen).toNat → ∀ c, B h l c →
    w.release ((freedTo h.nextPacketPtr >>> 8).setWidth 8)
      ((put ERDPTL h.nextPacketPtr c).setReg (ERXRDPTL.cell 0) ((freedTo h.nextPacketPtr).setWidth 8)) ∧
    D h l (release (freedTo h.nextPacketPtr) (put ERDPTL h.nextPacketPtr c))
  decrement : ∀ h l c, D h l c → c.econ2 = 0x80 ∧ Z h l { c with epktcnt := c.epktcnt - 1 }

variable {buf : ℕ → Byte} {maxlen : Word} {V : Byte → Chip → Prop} {H : List Byte → Chip → Prop}
  {B D Z : EthRxHeaderT → List Byte → Chip → Prop}

theorem spec_readRxHeader (hev : Acts si ev) (hH : ∀ l, Workable w ev (H l))
    (ha : ∀ c, H [] c → c.autoinc = true)
    (h : ∀ l, l.length < 6 → ∀ c, H l c → w.copy c ∧ H (l ++ [c.readBuf.1]) c.readBuf.2) :
    (station w ev tot si).Spec (At (station w ev tot si) d (H [])) enc28j60ReadRxHeader
      fun _ d' c ↦ ∃ l, l.length = 6 ∧ At (station w ev tot si) { d with encHeader := headerOf l } (H l) d' c := by
  have hdrain : (station w ev tot si).Spec (At (station w ev tot si) d (H []))
      (enc28j60ReadBuf (headerBytes d.encHeader) encHeaderSize) _ := spec_drain hev hH ha h
  refine spec_at_get (hdrain.bind_modify fun b d₁ c hc ↦ ?_)
  obtain ⟨rfl, hcoh, l, hl, rfl, hc⟩ := hc
  rw [headerOfBytes_overlay hl]
  exact ⟨l, hl, rfl, hcoh, hc⟩

/-- The end of `enc28j60_receive_packet`: the frame that has been copied out is given back. -/
theorem spec_giveBack {β : Type} {r : β} {S : Chip → Prop} (hev : Acts si ev) (hP : Workable w ev P)
    (hQ : Workable w ev Q) (hS : (station w ev tot si).Stable S)
    (h : ∀ c, P c → w.release ((freedTo d.encHeader.nextPacketPtr >>> 8).setWidth 8)
      ((put ERDPTL d.encHeader.nextPacketPtr c).setReg (ERXRDPTL.cell 0)
        ((freedTo d.encHeader.nextPacketPtr).setWidth 8)) ∧
      Q (release (freedTo d.encHeader.nextPacketPtr) (put ERDPTL d.encHeader.nextPacketPtr c)))
    (hdec : ∀ c, Q c → c.econ2 = 0x80 ∧ S { c with epktcnt := c.epktcnt - 1 }) :
    (station w ev tot si).Spec (At (station w ev tot si) d P) (do
      modify fun dev ↦ { dev with nextRxPacketPtr := dev.encHeader.nextPacketPtr }
      let dev ← get
      enc28j60WriteReg ERDPTL dev.nextRxPacketPtr
      if dev.encHeader.nextPacketPtr = rxBufferStartAddr then
        enc28j60WriteReg ERXRDPTL rxBufferEndAddr
      else
        enc28j60WriteReg ERXRDPTL (dev.encHeader.nextPacketPtr - 1)
      let regData ← enc28j60ReadReg ECON2
      enc28j60WriteReg ECON2 ((Econ2Reg.pktdec.set 1 (regData.setWidth 8 : Byte)).setWidth 16)
      pure r)
      fun r' d' c ↦ r' = r ∧ At (station w ev tot si)
        { d with bank := .bank0, nextRxPacketPtr := d.encHeader.nextPacketPtr } S d' c := by
  have hnext (d' : Enc28j60T) (c : Chip) (hc : At (station w ev tot si) d P d' c) :
      At (station w ev tot si) { d with nextRxPacketPtr := d.encHeader.nextPacketPtr } P
        { d' with nextRxPacketPtr := d'.encHeader.nextPacketPtr } c := by
    obtain ⟨rfl, hcoh, hc⟩ := hc
    exact ⟨rfl, hcoh, hc⟩
  refine Setting.Spec.modify_bind hnext (spec_at_get ((spec_place hev (by decide) _ hP).bind fun _ ↦ ?_))
  let d₂ : Enc28j60T := { d with bank := .bank0, nextRxPacketPtr := d.encHeader.nextPacketPtr }
  have hfree : (station w ev tot si).Spec (At (station w ev tot si) d₂
        (Image (put ERDPTL d.encHeader.nextPacketPtr) P))
      (enc28j60WriteReg ERXRDPTL (freedTo d.encHeader.nextPacketPtr))
      fun _ ↦ At (station w ev tot si) d₂ Q := by
    refine spec_release hev _ (hP.put hev (by decide) _) hQ.stable ?_
    rintro - ⟨c, hc, rfl⟩
    exact h c hc
  have hcount : (station w ev tot si).Spec (At (station w ev tot si) d₂ Q) _ _ :=
    spec_pktdec hev hQ hS hdec
  have hrest := Setting.Spec.assoc (hcount.bind_pure (f := fun _ ↦ r)
    (R := fun r' d' c ↦ r' = r ∧ At (station w ev tot si) d₂ S d' c) fun _ _ _ hc ↦ ⟨rfl, hc⟩)
  refine Setting.Spec.ite (fun hz ↦ ?_) fun hz ↦ ?_
  · rw [freedTo, if_pos hz] at hfree
    exact hfree.bind fun _ ↦ hrest
  · rw [freedTo, if_neg hz] at hfree
    exact hfree.bind fun _ ↦ hrest

theorem setWidth_ne : ∀ b : Byte, (b.setWidth 16 : Word) ≠ 0 ↔ b ≠ 0 := by decide

/-- The branch of `enc28j60_receive_packet` in which a packet is pending. -/
theorem spec_receiveBody {b : Byte} (hev : Acts si ev) (h : Receives w ev d maxlen P V H B D Z) (hb : b ≠ 0) :
    (station w ev tot si).Spec (At (station w ev tot si) { d with bank := .bank1 } (V b)) (do
      let dev ← get
      enc28j60WriteReg ERDPTL dev.nextRxPacketPtr
      enc28j60ReadRxHeader
      let dev ← get
      let len := payloadLength dev.encHeader.byteCount maxlen
      let buf ← enc28j60ReadBuf buf len
      modify fun dev ↦ { dev with nextRxPacketPtr := dev.encHeader.nextPacketPtr }
      let dev ← get
      enc28j60WriteReg ERDPTL dev.nextRxPacketPtr
      if dev.encHeader.nextPacketPtr = rxBufferStartAddr then
        enc28j60WriteReg ERXRDPTL rxBufferEndAddr
      else
        enc28j60WriteReg ERXRDPTL (dev.encHeader.nextPacketPtr - 1)
      let regData ← enc28j60ReadReg ECON2
      enc28j60WriteReg ECON2 ((Econ2Reg.pktdec.set 1 (regData.setWidth 8 : Byte)).setWidth 16)
      pure (len, buf))
      fun r d' c ↦ ∃ hdr l, l.length = (payloadLength hdr.byteCount maxlen).toNat ∧
        r = (payloadLength hdr.byteCount maxlen, overlay l buf) ∧ At (station w ev tot si)
          { d with bank := .bank0, encHeader := hdr, nextRxPacketPtr := hdr.nextPacketPtr } (Z hdr l) d' c := by
  have hseek : (station w ev tot si).Spec (At (station w ev tot si) { d with bank := .bank1 } (V b))
      (enc28j60WriteReg ERDPTL d.nextRxPacketPtr)
      fun _ ↦ At (station w ev tot si) { d with bank := .bank0 } (H []) := by
    refine (spec_place hev (by decide) d.nextRxPacketPtr (h.counted b)).mono (fun _ _ h ↦ h)
      fun _ _ _ hc ↦ ⟨hc.1, hc.2.1, ?_⟩
    obtain ⟨x, hx, hc⟩ := hc.2.2
    rw [hc]
    exact h.seek b hb x hx
  refine spec_at_get (hseek.bind fun _ ↦
    (spec_readRxHeader hev h.header h.autoinc.1 h.copyHeader).bind fun _ ↦ Setting.Spec.exists fun l ↦
      Setting.Spec.pre fun hl ↦ spec_at_get ?_)
  have hparse : (station w ev tot si).Spec (At (station w ev tot si)
      { d with bank := .bank0, encHeader := headerOf l } (H l))
      (enc28j60ReadBuf buf (payloadLength (headerOf l).byteCount maxlen)) _ :=
    (spec_drain hev (h.payload (headerOf l)) (h.autoinc.2 _) (h.copyPayload (headerOf l))).mono
      (fun _ _ hc ↦ ⟨hc.1, hc.2.1, h.parse l hl _ hc.2.2⟩) fun _ _ _ hc ↦ hc
  refine hparse.bind fun b ↦ spec_at_exists fun bs ↦ spec_at_pure fun hbs ↦ spec_at_pure fun hb ↦ ?_
  subst hb
  have hback : (station w ev tot si).Spec (At (station w ev tot si)
      { d with bank := .bank0, encHeader := headerOf l } (B (headerOf l) bs)) _ _ :=
    spec_giveBack (r := (payloadLength (headerOf l).byteCount maxlen, overlay bs buf)) hev
      (h.payload (headerOf l) bs) (h.released (headerOf l) bs) (h.final (headerOf l) bs)
      (h.release (headerOf l) bs hbs) (h.decrement (headerOf l) bs)
  exact hback.mono (fun _ _ hc ↦ hc) fun r d' c hc ↦ ⟨headerOf l, bs, hbs, hc⟩

/-- What a call of `enc28j60_receive_packet` comes to: nothing was pending, or a frame has been
copied out and given back. -/
theorem spec_receivePacket (hev : Acts si ev) (h : Receives w ev d maxlen P V H B D Z) :
    (station w ev tot si).Spec (At (station w ev tot si) d P) (enc28j60ReceivePacket buf maxlen)
      fun r d' c ↦ (r = (0, buf) ∧ At (station w ev tot si) { d with bank := .bank1 } (V 0) d' c) ∨
        ∃ hdr l, l.length = (payloadLength hdr.byteCount maxlen).toNat ∧
          r = (payloadLength hdr.byteCount maxlen, overlay l buf) ∧
          At (station w ev tot si) { d with
            bank := .bank0, encHeader := hdr, nextRxPacketPtr := hdr.nextPacketPtr } (Z hdr l) d' c := by
  intro d' s hs hat
  refine Machine.dwp_bind.mpr (Machine.dwp_mono (spec_count hev h.start h.counted h.count d' s hs hat) ?_)
  rintro - d' s ⟨hw, rfl, hcoh, b, rfl, hv⟩
  refine Machine.dwp_ite (fun hn ↦ ?_) fun hn ↦ ?_
  · have hne := (setWidth_ne b).mp hn
    refine Machine.dwp_mono (spec_receiveBody hev h hne _ s (.inl hw) ⟨rfl, hcoh, hv⟩)
      fun r d' s' hr ↦ ⟨hr.1, .inr hr.2⟩
  · have hb : b = 0 := by
      by_contra hne
      exact hn ((setWidth_ne b).mpr hne)
    subst hb
    exact ⟨hw, .inl ⟨rfl, rfl, hcoh, hv⟩⟩

end Reception

/-- The packet functions of the interface. -/
inductive Call
  | receivePacket (buf : ℕ → Byte) (maxlen : Word)
  | sendPacket (buf : ℤ → Byte) (length : Word)
  | prepareToTx
  | writeToTx (buf : ℤ → Byte) (length : Word)
  | readyToSend

/-- The result of a call that receives, if it is one. -/
def Call.run : Call → Drv (Option (Word × (ℕ → Byte)))
  | .receivePacket buf maxlen => some <$> enc28j60ReceivePacket buf maxlen
  | .sendPacket buf length => (fun _ ↦ none) <$> enc28j60SendPacket buf length
  | .prepareToTx => (fun _ ↦ none) <$> enc28j60PrepareToTx
  | .writeToTx buf length => (fun _ ↦ none) <$> enc28j60WriteToTx buf length
  | .readyToSend => (fun _ ↦ none) <$> enc28j60ReadyToSend

end Enc28j60.Procedures
