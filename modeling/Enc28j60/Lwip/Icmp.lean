import Enc28j60.Lwip.Ip4

namespace Enc28j60.Lwip

open RegisterMap LowLayer Ethernetif

section Functions

def icmpDur : Byte := 3
def icmpEcho : Byte := 8
def icmpTe : Byte := 11
def icmpDurProto : Byte := 2
def icmpTeFrag : Byte := 1

def icmpTtl : Byte := 255

/-- The payloads of a chain, as `inet_chksum_pbuf` takes them. -/
def parts (m : Memory) (p : List Ptr) : List (Bool × List Byte) :=
  p.map fun x ↦ ((m.pbuf x).payload % 2 == 1, bytesAt m ⟨x, (m.pbuf x).payload⟩ (m.pbuf x).len.toNat)

def icmpSendResponse (p : List Ptr) (type code : Byte) (netif : Ip4Netif) : Lw Unit := do
  let b ← pbufOf p
  let responsePktLen : Word := if b.totLen < 28 then b.totLen else 28
  let q ← pbufAllocRam pbufIp (8 + responsePktLen)
  if q = [] then pure ()
  else
    let iphdr ← payloadOf p
    let icmphdr ← payloadOf q
    store8 icmphdr 0 type
    store8 icmphdr 1 code
    store32 icmphdr 4 0
    let _ ← pbufCopyPartialPbuf q p responsePktLen 8
    let iphdrSrc ← load32 iphdr 12
    if ip4Route netif iphdrSrc then
      store16 icmphdr 2 0
      let c ← pbufOf q
      let chksum ← loadChksum icmphdr c.len.toNat
      store16 icmphdr 2 chksum
      let _ ← ip4OutputIf q none (some iphdrSrc) icmpTtl 0 ipProtoIcmp netif
    let _ ← freeChain q

def icmpDestUnreach (p : List Ptr) (t : Byte) (netif : Ip4Netif) : Lw Unit := icmpSendResponse p icmpDur t netif

def icmpTimeExceeded (p : List Ptr) (t : Byte) (netif : Ip4Netif) : Lw Unit := icmpSendResponse p icmpTe t netif

/-- The buffer for the reply: the request itself, or a copy where it has no room for the headers. None
stands for the jump to `icmperr`. -/
def echoBuffer (p : List Ptr) (hlen : Word) (iphdrIn : Loc) : Lw (Option (List Ptr)) := do
  if ← pbufAddHeader p (hlen.toNat + pbufLinkHlen.toNat) then
    let b ← pbufOf p
    let allocLen := b.totLen + hlen
    if allocLen < b.totLen then pure none
    else
      let r ← pbufAllocRam pbufLink allocLen
      if r = [] then pure none
      else
        let c ← pbufOf r
        if c.len.toNat < hlen.toNat + 8 then
          let _ ← freeChain r
          pure none
        else
          let payload ← payloadOf r
          let header ← loadBytes iphdrIn hlen.toNat
          storeBytes payload 0 header
          if ← pbufRemoveHeader r hlen.toNat then
            let _ ← freeChain r
            pure none
          else if (← pbufCopy r p) ≠ .ok then
            let _ ← freeChain r
            pure none
          else
            let _ ← freeChain p
            pure (some r)
  else if ← pbufRemoveHeader p (hlen.toNat + pbufLinkHlen.toNat) then pure none
  else pure (some p)

/-- The checksum of the reply, from that of the request. -/
def echoChksum (chksum : Word) : Word := if 0xfff7 < chksum then chksum + 8 + 1 else chksum + 8

/-- The end of the case of an echo request. -/
def echoReply (p : List Ptr) (hlen : Word) (src dest : Word32) (inp : Ip4Netif) : Lw Unit := do
  let iecho ← payloadOf p
  if ← pbufAddHeader p hlen.toNat then pure ()
  else
    let iphdr ← payloadOf p
    store32 iphdr 12 src
    store32 iphdr 16 dest
    store8 iecho 0 0
    setPbuf (first p) fun b ↦ { b with ifIdx := netifNoIndex }
    let chksum ← load16 iecho 2
    store16 iecho 2 (echoChksum chksum)
    store8 iphdr 8 icmpTtl
    store16 iphdr 10 0
    let chksum ← loadChksum iphdr hlen.toNat
    store16 iphdr 10 chksum
    let _ ← ip4OutputIf p (some src) none icmpTtl 0 ipProtoIcmp inp

def icmpInput (p : List Ptr) (inp : Ip4Netif) : Lw Unit := do
  let s ← get
  let d := s.ipData
  let vHl ← load8 d.currentIp4Header 0
  let hlen : Word := (iphHlBytes vHl).setWidth 16
  let b ← pbufOf p
  if hlen.toNat < ipHlen ∨ b.len < 4 then
    let _ ← freeChain p
  else
    let payload ← payloadOf p
    let type ← load8 payload 0
    if type = icmpEcho then
      if ip4AddrIsmulticast d.currentIphdrDest || ip4AddrIsbroadcast d.currentIphdrDest inp then
        let _ ← freeChain p
      else if b.totLen < 8 then
        let _ ← freeChain p
      else
        let s ← get
        if inetChksumPbuf (parts s.memory p) ≠ 0 then
          let _ ← freeChain p
        else
          match ← echoBuffer p hlen d.currentIp4Header with
          | none =>
            let _ ← freeChain p
          | some p =>
            echoReply p hlen d.currentIphdrDest d.currentIphdrSrc inp
            let _ ← freeChain p
    else
      let _ ← freeChain p

end Functions

end Enc28j60.Lwip
