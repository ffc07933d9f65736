import Enc28j60.Lwip.Accounts
import Enc28j60.Lwip.Etharp

namespace Enc28j60.Lwip

open RegisterMap StateLogic LowLayer Ethernetif

variable {T : Multiset Ptr} {m : Memory} {ram : Heap} {x y : Ptr} {b c : Pbuf} {s : Stack} {i j k n : ℕ}
  {d : List Byte} {netif : Ip4Netif}

section Headers

theorem bytes_push (hn : n ≤ b.payload) (hlen : b.len.toNat + n < 2 ^ 16) :
    (b.push n).bytes = b.read (b.payload - n) n ++ b.bytes := by
  have hnat : (BitVec.ofNat 16 n).toNat = n := by
    rw [BitVec.toNat_ofNat]
    exact Nat.mod_eq_of_lt (by omega)
  have htotal : (b.len + BitVec.ofNat 16 n).toNat = n + b.len.toNat := by
    rw [BitVec.toNat_add, hnat]
    omega
  have hback : b.payload - n + n = b.payload := Nat.sub_add_cancel hn
  change b.read (b.payload - n) (b.len + BitVec.ofNat 16 n).toNat = _
  rw [htotal, read_add, hback]
  rfl

theorem toNat_len_pull (hn : n ≤ b.len.toNat) : (b.pull n).len.toNat = b.len.toNat - n := by
  have hlt := b.len.isLt
  have hnat : (BitVec.ofNat 16 n).toNat = n := by
    rw [BitVec.toNat_ofNat]
    exact Nat.mod_eq_of_lt (by omega)
  change (b.len - BitVec.ofNat 16 n).toNat = _
  rw [BitVec.toNat_sub_of_le (by rw [BitVec.le_def, hnat]; exact hn), hnat]

theorem bytes_pull (hn : n ≤ b.len.toNat) : (b.pull n).bytes = b.bytes.drop n := by
  have hsplit : b.len.toNat = n + (b.len.toNat - n) := by omega
  have hall : b.bytes = b.read b.payload n ++ b.read (b.payload + n) (b.len.toNat - n) := by
    rw [← read_add, ← hsplit]
    rfl
  rw [hall, List.drop_left' length_read, Pbuf.bytes, toNat_len_pull hn]
  rfl

/-- The header functions on a buffer by itself. -/
theorem wp_pbufAddHeader {Q : Bool → Stack → Prop} (hx : Single x (s.memory.pbuf x))
    (hfit : (s.memory.pbuf x).payload + (s.memory.pbuf x).len.toNat ≤ memSizeAligned) (hpos : 0 < n) (hn : n ≤ 1000)
    (hfull : (s.memory.pbuf x).payload < n → Q true s)
    (hroom : n ≤ (s.memory.pbuf x).payload → Q false { s with memory := s.memory.set x ((s.memory.pbuf x).push n) }) :
    wp (pbufAddHeader [x] n) Q s := by
  have hcontiguous : (s.memory.pbuf x).typeInternal &&& pbufTypeFlagStructDataContiguous ≠ 0 := by
    rw [hx.type, typeOf]
    split
    · exact (by decide : (0x80 : Byte) ≠ 0)
    · exact (by decide : (0x80 : Byte) ≠ 0)
  have hnat : (BitVec.ofNat 16 n).toNat = n := by
    rw [BitVec.toNat_ofNat]
    exact Nat.mod_eq_of_lt (by omega)
  have hover : ¬BitVec.ofNat 16 n + (s.memory.pbuf x).totLen < BitVec.ofNat 16 n := by
    rw [BitVec.lt_def, BitVec.toNat_add, hnat, hx.whole]
    simp only [memSizeAligned] at hfit
    omega
  simp only [pbufAddHeader, pbufAddHeaderImpl, if_neg (Nat.not_lt_of_le (hn.trans (by decide : 1000 ≤ 0xFFFF))),
    if_neg (Nat.ne_of_gt hpos), wp_bind, wp_pbufOf, hover, hcontiguous, if_false, ne_eq, not_false_eq_true, true_and,
    false_and]
  exact wp_ite hfull fun hlow ↦ hroom (Nat.le_of_not_lt hlow)

theorem wp_pbufRemoveHeader {Q : Bool → Stack → Prop} (hpos : 0 < n) (hn : n ≤ 1000)
    (hshort : (s.memory.pbuf x).len.toNat < n → Q true s)
    (hlong : n ≤ (s.memory.pbuf x).len.toNat →
      Q false { s with memory := s.memory.set x ((s.memory.pbuf x).pull n) }) :
    wp (pbufRemoveHeader [x] n) Q s := by
  have hnat : (BitVec.ofNat 16 n).toNat = n := by
    rw [BitVec.toNat_ofNat]
    exact Nat.mod_eq_of_lt (by omega)
  simp only [pbufRemoveHeader, if_neg (Nat.not_lt_of_le (hn.trans (by decide : 1000 ≤ 0xFFFF))),
    if_neg (Nat.ne_of_gt hpos), wp_bind, wp_pbufOf, BitVec.lt_def, hnat]
  exact wp_ite hshort fun hlow ↦ hlong (Nat.le_of_not_lt hlow)

theorem Accounts.push (h : Accounts T m ram) (hx : x ∈ T) (hn : n ≤ (m.pbuf x).payload) :
    Accounts T (m.set x ((m.pbuf x).push n)) ram := by
  have hfit := h.fits hx
  refine h.set rfl rfl ?_ ?_
  · change _ + _ = _ + _
    rw [(h.single x hx).whole]
  · have hle : ((m.pbuf x).len + BitVec.ofNat 16 n).toNat ≤ (m.pbuf x).len.toNat + n := by
      rw [BitVec.toNat_add, BitVec.toNat_ofNat]
      exact (Nat.mod_le _ _).trans (Nat.add_le_add_left (Nat.mod_le _ _) _)
    change (m.pbuf x).payload - n + ((m.pbuf x).len + BitVec.ofNat 16 n).toNat ≤ _
    omega

theorem Accounts.pull (h : Accounts T m ram) (hx : x ∈ T) (hn : n ≤ (m.pbuf x).len.toNat) :
    Accounts T (m.set x ((m.pbuf x).pull n)) ram := by
  refine h.set rfl rfl ?_ ?_
  · change _ - _ = _ - _
    rw [(h.single x hx).whole]
  · rw [toNat_len_pull hn]
    change (m.pbuf x).payload + n + _ ≤ _
    omega

/-- Bytes are written into a buffer. -/
theorem Accounts.put (h : Accounts T m ram) (hx : x ∈ T) : Accounts T (m.set x ((m.pbuf x).put i d)) ram :=
  h.set rfl rfl (h.single x hx).whole (Nat.le_refl _)

end Headers

section Outputs

/-- The bytes of the frames that have been handed to the driver. -/
def frames (s : Stack) : List (List Byte) := s.sent.map fun e ↦ payloads e.1 e.2

def ethFrame (src dst : MacAddrT) (ethType : Word) (d : List Byte) : List Byte :=
  MacAddrT.bytes dst ++ MacAddrT.bytes src ++ bytes16 (lwipHtons ethType) ++ d

def arpPacket (hwsrcAddr : MacAddrT) (ipsrcAddr : Word32) (hwdstAddr : MacAddrT) (ipdstAddr : Word32) (opcode : Word) :
    List Byte :=
  bytes16 (lwipHtons 1) ++ bytes16 (lwipHtons ethtypeIp) ++ [6, 4] ++ bytes16 (lwipHtons opcode) ++
    MacAddrT.bytes hwsrcAddr ++ bytes32 ipsrcAddr ++ MacAddrT.bytes hwdstAddr ++ bytes32 ipdstAddr

/-- The Ethernet header before the packet. -/
def Pbuf.ethernet (b : Pbuf) (src dst : MacAddrT) (ethType : Word) : Pbuf :=
  (((b.push 14).put (b.payload - 14 + 12) (bytes16 (lwipHtons ethType))).put (b.payload - 14)
    (MacAddrT.bytes dst)).put (b.payload - 14 + 6) (MacAddrT.bytes src)

theorem bytes_ethernet {src dst : MacAddrT} {ethType : Word} (hroom : 14 ≤ b.payload) (hlen : b.len.toNat ≤ memSizeAligned) :
    (b.ethernet src dst ethType).bytes = ethFrame src dst ethType b.bytes := by
  have hbound : memSizeAligned = 1024 := rfl
  have htotal : (b.ethernet src dst ethType).len.toNat = 14 + b.len.toNat := by
    change (b.len + BitVec.ofNat 16 14).toNat = _
    have h14 : (BitVec.ofNat 16 14).toNat = 14 := rfl
    rw [BitVec.toNat_add, h14]
    omega
  have hsplit : 14 + b.len.toNat = 6 + (6 + (2 + b.len.toNat)) := by omega
  have hpayload : (b.ethernet src dst ethType).payload = b.payload - 14 := rfl
  have h6 : (MacAddrT.bytes dst).length = 6 := rfl
  have h6' : (MacAddrT.bytes src).length = 6 := rfl
  have h2 : (bytes16 (lwipHtons ethType)).length = 2 := rfl
  rw [Pbuf.bytes, htotal, hsplit, read_add, read_add, read_add, hpayload, ethFrame, Pbuf.ethernet]
  have hdst : ((((b.push 14).put (b.payload - 14 + 12) (bytes16 (lwipHtons ethType))).put (b.payload - 14)
      (MacAddrT.bytes dst)).put (b.payload - 14 + 6) (MacAddrT.bytes src)).read (b.payload - 14) 6 = MacAddrT.bytes dst := by
    rw [read_put_of_apart (by omega), read_put_self h6]
  have hsrc : ((((b.push 14).put (b.payload - 14 + 12) (bytes16 (lwipHtons ethType))).put (b.payload - 14)
      (MacAddrT.bytes dst)).put (b.payload - 14 + 6) (MacAddrT.bytes src)).read (b.payload - 14 + 6) 6 =
      MacAddrT.bytes src := read_put_self h6'
  have htype : ((((b.push 14).put (b.payload - 14 + 12) (bytes16 (lwipHtons ethType))).put (b.payload - 14)
      (MacAddrT.bytes dst)).put (b.payload - 14 + 6) (MacAddrT.bytes src)).read (b.payload - 14 + 6 + 6) 2 =
      bytes16 (lwipHtons ethType) := by
    rw [read_put_of_apart (by omega), read_put_of_apart (by omega), read_put_self h2]
  have hrest : ((((b.push 14).put (b.payload - 14 + 12) (bytes16 (lwipHtons ethType))).put (b.payload - 14)
      (MacAddrT.bytes dst)).put (b.payload - 14 + 6) (MacAddrT.bytes src)).read (b.payload - 14 + 6 + 6 + 2) b.len.toNat =
      b.bytes := by
    have hback : b.payload - 14 + 6 + 6 + 2 = b.payload := by omega
    rw [read_put_of_apart (by omega), read_put_of_apart (by omega), read_put_of_apart (by omega), hback]
    rfl
  rw [hdst, hsrc, htype, hrest, List.append_assoc, List.append_assoc]

/-- A packet goes out behind an Ethernet header, where there is room for one. -/
theorem ethernetOutput_spec (h : Accounts T s.memory s.ram) (hx : x ∈ T) (src dst : MacAddrT) (ethType : Word) :
    wp (ethernetOutput netif [x] src dst ethType) (fun r s' ↦
      (s.memory.pbuf x).payload < 14 ∧ r = .buf ∧ s' = s ∨
      14 ≤ (s.memory.pbuf x).payload ∧ r = .ok ∧ ∃ m sent, s' = { s with memory := m, sent } ∧ Accounts T m s.ram ∧
        (∀ y, y ≠ x → m.pbuf y = s.memory.pbuf y) ∧
        frames s' = frames s ++ [ethFrame src dst ethType (s.memory.pbuf x).bytes]) s := by
  have hfit := h.fits hx
  unfold ethernetOutput
  refine wp_bind.mpr (wp_pbufAddHeader (n := 14) (h.single x hx) hfit (by decide) (by decide) (fun hlow ↦ ?_) fun hroom ↦ ?_)
  · exact .inl ⟨hlow, rfl, rfl⟩
  · have hlen : (s.memory.pbuf x).len.toNat ≤ memSizeAligned := (Nat.le_add_left _ _).trans hfit
    have hpush := h.push hx hroom
    have htype := hpush.put (i := (s.memory.pbuf x).payload - 14 + 12) (d := bytes16 (lwipHtons ethType)) hx
    have hdst := htype.put (i := (s.memory.pbuf x).payload - 14) (d := MacAddrT.bytes dst) hx
    have hsrc := hdst.put (i := (s.memory.pbuf x).payload - 14 + 6) (d := MacAddrT.bytes src) hx
    simp only [set_pbuf_self, set_set] at hsrc
    simp only [Bool.false_eq_true, if_false, wp_bind, wp_payloadOf, store16, storeMac, wp_storeBytes, set_pbuf_self,
      set_set, linkoutput, wp_modify, wp_pure]
    refine .inr ⟨hroom, trivial, _, _, rfl, hsrc, fun y hy ↦ set_pbuf_of_ne hy, ?_⟩
    simp only [frames, List.map_append, List.map_cons, List.map_nil, payloads_singleton, set_pbuf_self]
    rw [← bytes_ethernet hroom hlen]
    rfl

@[simp] theorem length_bytes16 (v : Word) : (bytes16 v).length = 2 := rfl

@[simp] theorem length_bytes32 (v : Word32) : (bytes32 v).length = 4 := rfl

@[simp] theorem length_macBytes (a : MacAddrT) : (MacAddrT.bytes a).length = 6 := rfl

@[simp] theorem read_put_bytes16 {v : Word} : (b.put i (bytes16 v)).read i 2 = bytes16 v := read_put_self rfl

@[simp] theorem read_put_bytes32 {v : Word32} : (b.put i (bytes32 v)).read i 4 = bytes32 v := read_put_self rfl

@[simp] theorem read_put_macBytes {a : MacAddrT} : (b.put i (MacAddrT.bytes a)).read i 6 = MacAddrT.bytes a :=
  read_put_self rfl

@[simp] theorem read_put_singleton {v : Byte} : (b.put i [v]).read i 1 = [v] := read_put_self rfl

/-- The ARP message that `etharp_raw` writes at the payload. -/
def Pbuf.arp (b : Pbuf) (hwsrcAddr : MacAddrT) (ipsrcAddr : Word32) (hwdstAddr : MacAddrT) (ipdstAddr : Word32)
    (opcode : Word) : Pbuf :=
  ((((((((b.put (b.payload + 6) (bytes16 (lwipHtons opcode))).put (b.payload + 8) (MacAddrT.bytes hwsrcAddr)).put
    (b.payload + 18) (MacAddrT.bytes hwdstAddr)).put (b.payload + 14) (bytes32 ipsrcAddr)).put
    (b.payload + 24) (bytes32 ipdstAddr)).put (b.payload + 0) (bytes16 (lwipHtons 1))).put
    (b.payload + 2) (bytes16 (lwipHtons ethtypeIp))).put (b.payload + 4) [6]).put (b.payload + 5) [4]

theorem bytes_arp {hwsrcAddr hwdstAddr : MacAddrT} {ipsrcAddr ipdstAddr : Word32} {opcode : Word} (hlen : b.len = 28) :
    (b.arp hwsrcAddr ipsrcAddr hwdstAddr ipdstAddr opcode).bytes =
      arpPacket hwsrcAddr ipsrcAddr hwdstAddr ipdstAddr opcode := by
  have hall : (b.arp hwsrcAddr ipsrcAddr hwdstAddr ipdstAddr opcode).bytes =
      (b.arp hwsrcAddr ipsrcAddr hwdstAddr ipdstAddr opcode).read (b.payload + 0)
        (2 + (2 + (1 + (1 + (2 + (6 + (4 + (6 + 4)))))))) := by
    have h28 : (b.arp hwsrcAddr ipsrcAddr hwdstAddr ipdstAddr opcode).len = 28 := hlen
    rw [Pbuf.bytes, h28]
    rfl
  rw [hall]
  simp only [read_add, Nat.add_assoc]
  simp only [Nat.reduceAdd, Pbuf.arp]
  simp (disch := first | (simp; done) | (simp; omega)) only [read_put_of_apart, read_put_bytes16, read_put_bytes32, read_put_macBytes,
    read_put_singleton]
  simp only [arpPacket, List.append_assoc, List.cons_append, List.nil_append]

theorem Accounts.arp (h : Accounts T m ram) (hwsrcAddr : MacAddrT) (ipsrcAddr : Word32)
    (hwdstAddr : MacAddrT) (ipdstAddr : Word32) (opcode : Word) (hx : x ∈ T) :
    Accounts T (m.set x ((m.pbuf x).arp hwsrcAddr ipsrcAddr hwdstAddr ipdstAddr opcode)) ram :=
  h.set rfl rfl (h.single x hx).whole (Nat.le_refl _)

/-- An ARP message goes out, unless the heap has no room for it. -/
theorem etharpRaw_spec (h : Accounts T s.memory s.ram) (ethsrcAddr ethdstAddr hwsrcAddr : MacAddrT) (ipsrcAddr : Word32)
    (hwdstAddr : MacAddrT) (ipdstAddr : Word32) (opcode : Word) :
    wp (etharpRaw netif ethsrcAddr ethdstAddr hwsrcAddr ipsrcAddr hwdstAddr ipdstAddr opcode) (fun r s' ↦
      ∃ m ram sent, s' = { s with memory := m, ram, sent } ∧ Accounts T m ram ∧
        (∀ y ∈ T, Alike (s.memory.pbuf y) (m.pbuf y)) ∧
        (r = .mem ∧ frames s' = frames s ∧ Busy T ∨ r = .ok ∧ frames s' = frames s ++
          [ethFrame ethsrcAddr ethdstAddr ethtypeArp (arpPacket hwsrcAddr ipsrcAddr hwdstAddr ipdstAddr opcode)])) s := by
  unfold etharpRaw
  refine wp_seq (pbufAllocRam_spec h pbufLink 28 (by decide)) fun r s₁ hr ↦ ?_
  obtain ⟨m, ram, rfl, ⟨rfl, rfl, hacc, hbusy⟩ | ⟨x, rfl, hhigh, hfresh, hacc, hother, hpayload, hlen⟩⟩ := hr
  · rw [if_pos rfl]
    exact ⟨_, _, _, rfl, hacc, fun y _ ↦ Alike.refl _, .inl ⟨rfl, rfl, hbusy (by decide)⟩⟩
  · have hx : x ∈ x ::ₘ T := Multiset.mem_cons_self x T
    have harp := hacc.arp hwsrcAddr ipsrcAddr hwdstAddr ipdstAddr opcode hx
    have hbytes : ((m.pbuf x).arp hwsrcAddr ipsrcAddr hwdstAddr ipdstAddr opcode).bytes = _ := bytes_arp hlen
    rw [if_neg (List.cons_ne_nil x [])]
    simp only [wp_bind, wp_payloadOf, store8, store16, store32, storeMac, wp_storeBytes, set_pbuf_self, set_set]
    refine wp_mono (ethernetOutput_spec (s := { s with
      memory := m.set x ((m.pbuf x).arp hwsrcAddr ipsrcAddr hwdstAddr ipdstAddr opcode), ram }) harp hx _ _ _) ?_
    rintro r s₂ (⟨hlow, -⟩ | ⟨-, -, m₂, sent, rfl, hacc₂, hother₂, hframes⟩)
    · rw [set_pbuf_self] at hlow
      change (m.pbuf x).payload < 14 at hlow
      rw [hpayload] at hlow
      exact absurd hlow (by decide)
    · refine wp_mono (freeChain_spec hacc₂) ?_
      rintro - s₃ ⟨m₃, ram₃, rfl, hacc₃, halike⟩
      refine ⟨m₃, ram₃, sent, rfl, hacc₃, fun y hy ↦ ?_, .inr ⟨rfl, ?_⟩⟩
      · have hne : y ≠ x := fun he ↦ hfresh (he ▸ hy)
        have hsame := halike y
        rwa [hother₂ y hne, set_pbuf_of_ne hne, hother y hne] at hsame
      · rw [← hbytes]
        rw [set_pbuf_self] at hframes
        exact hframes

end Outputs

end Enc28j60.Lwip
