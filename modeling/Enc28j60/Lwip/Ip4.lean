import Enc28j60.Lwip.Etharp
import Enc28j60.Lwip.InetChksum

namespace Enc28j60.Lwip

open RegisterMap LowLayer Ethernetif

section Functions

def netifFlagUp : Byte := 0x01

def ipHlen : ℕ := 20
def ipProtoIcmp : Byte := 1

/-- `IPH_HL_BYTES` of the header at `iphdr`. -/
def iphHlBytes (vHl : Byte) : Byte := (vHl &&& 0x0f) * 4

def isUp (netif : Ip4Netif) : Bool := netif.flags &&& netifFlagUp != 0

def isLinkUp (netif : Ip4Netif) : Bool := netif.flags &&& netifFlagLinkUp != 0

/-- `inet_chksum` of the bytes at a place; the memory behind a buffer is aligned. -/
def chksumAt (m : Memory) (l : Loc) (len : ℕ) : Word := inetChksum (l.off % 2 == 1) (bytesAt m l len)

def loadChksum (l : Loc) (len : ℕ) : Lw Word := do
  let s ← get
  pure (chksumAt s.memory l len)

/-- `netif_list` and `netif_default` are the one interface; false stands for the null pointer. -/
def ip4Route (netif : Ip4Netif) (dest : Word32) : Bool :=
  if isUp netif && isLinkUp netif && !ip4AddrIsany netif.ipAddr &&
      (ip4AddrNetEq dest netif.ipAddr netif.netmask ||
        netif.flags &&& netifFlagBroadcast == 0 && dest == netif.gw) then true
  else !(!isUp netif || !isLinkUp netif || ip4AddrIsany netif.ipAddr || ip4AddrIsloopback dest)

/-- The sum of a new header, which `ip4_output_if_src` takes while it fills it in. -/
def headerChksum (ttl tos proto vHl : Byte) (len id : Word) (src dest : Word32) : Word :=
  let halves (v : Word32) : BitVec 32 := (v &&& 0xFFFF) + v >>> 16
  let chkSum : BitVec 32 := 0
  let chkSum := chkSum + (lwipHtons (ttl ++ proto)).setWidth 32
  let chkSum := chkSum + halves dest
  let chkSum := chkSum + (lwipHtons (vHl ++ tos)).setWidth 32
  let chkSum := chkSum + len.setWidth 32
  let chkSum := chkSum + id.setWidth 32
  let chkSum := chkSum + halves src
  let chkSum := chkSum >>> 16 + (chkSum &&& 0xFFFF)
  let chkSum := chkSum >>> 16 + chkSum
  (~~~chkSum).setWidth 16

/-- Without a destination the packet has its header already. -/
def ip4OutputIfSrc (p : List Ptr) (src dest : Option Word32) (ttl tos proto : Byte) (netif : Ip4Netif) :
    Lw ErrT := do
  match dest with
  | some dest =>
    if ← pbufAddHeader p ipHlen then pure .buf
    else
      let iphdr ← payloadOf p
      store8 iphdr 8 ttl
      store8 iphdr 9 proto
      store32 iphdr 16 dest
      let vHl : Byte := 0x45
      store8 iphdr 0 vHl
      store8 iphdr 1 tos
      let b ← pbufOf p
      store16 iphdr 2 (lwipHtons b.totLen)
      store16 iphdr 6 0
      let s ← get
      store16 iphdr 4 (lwipHtons s.ipId)
      modify fun s ↦ { s with ipId := s.ipId + 1 }
      store32 iphdr 12 (src.getD 0)
      store16 iphdr 10
        (headerChksum ttl tos proto vHl (lwipHtons b.totLen) (lwipHtons s.ipId) (src.getD 0) dest)
      etharpOutput netif p dest
  | none =>
    let b ← pbufOf p
    if b.len < BitVec.ofNat 16 ipHlen then pure .buf
    else
      let iphdr ← payloadOf p
      let dest ← load32 iphdr 16
      etharpOutput netif p dest

def ip4OutputIf (p : List Ptr) (src dest : Option Word32) (ttl tos proto : Byte) (netif : Ip4Netif) : Lw ErrT :=
  let srcUsed := if dest ≠ none ∧ (src = none ∨ src = some 0) then some netif.ipAddr else src
  ip4OutputIfSrc p srcUsed dest ttl tos proto netif

end Functions

end Enc28j60.Lwip
