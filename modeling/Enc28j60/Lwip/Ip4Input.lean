import Enc28j60.Lwip.Ip4Frag

namespace Enc28j60.Lwip

open RegisterMap LowLayer Ethernetif

section Functions

def pbufFlagLlbcast : Byte := 0x08
def pbufFlagLlmcast : Byte := 0x10

def ip4InputAccept (netif : Ip4Netif) (dest : Word32) : Bool :=
  isUp netif && !ip4AddrIsany netif.ipAddr && (dest == netif.ipAddr || ip4AddrIsbroadcast dest netif)

/-- Whether a packet for `dest` is for the interface. No other interface is there to be asked. -/
def ip4Accepts (inp : Ip4Netif) (dest : Word32) : Bool :=
  if ip4AddrIsmulticast dest then isUp inp && !ip4AddrIsany inp.ipAddr else ip4InputAccept inp dest

/-- The end of `ip4_input`, for a packet whose header is at `iphdr`. -/
def ip4Deliver (p : List Ptr) (iphdrHlen : Word) (iphdr : Loc) (src dest : Word32) (inp : Ip4Netif) : Lw Unit := do
  modify fun s ↦ { s with ipData := ⟨iphdr, src, dest⟩ }
  let _ ← pbufRemoveHeader p iphdrHlen.toNat
  let proto ← load8 iphdr 9
  if proto = ipProtoIcmp then icmpInput p inp
  else
    if !ip4AddrIsbroadcast dest inp && !ip4AddrIsmulticast dest then
      let _ ← pbufHeaderForce p iphdrHlen.toInt
      icmpDestUnreach p icmpDurProto inp
    let _ ← freeChain p

def ip4Input (p : List Ptr) (inp : Ip4Netif) : Lw ErrT := do
  let iphdr ← payloadOf p
  let vHl ← load8 iphdr 0
  if vHl >>> 4 ≠ 4 then
    let _ ← freeChain p
    pure .ok
  else
    let iphdrHlen : Word := (iphHlBytes vHl).setWidth 16
    let len ← load16 iphdr 2
    let iphdrLen := lwipHtons len
    let b ← pbufOf p
    let p ← if iphdrLen < b.totLen then pbufRealloc p iphdrLen else pure p
    let b ← pbufOf p
    if b.len < iphdrHlen ∨ b.totLen < iphdrLen ∨ iphdrHlen.toNat < ipHlen then
      let _ ← freeChain p
      pure .ok
    else
      let chksum ← loadChksum iphdr iphdrHlen.toNat
      if chksum ≠ 0 then
        let _ ← freeChain p
        pure .ok
      else
        let dest ← load32 iphdr 16
        let src ← load32 iphdr 12
        if ip4AddrIsbroadcast src inp || ip4AddrIsmulticast src then
          let _ ← freeChain p
          pure .ok
        else if !ip4Accepts inp dest then
          let _ ← freeChain p
          pure .ok
        else
          let offset ← load16 iphdr 6
          if offset &&& lwipHtons (ipOffmask ||| ipMf) ≠ 0 then
            let p ← ip4Reass inp p
            if p = [] then pure .ok
            else
              let iphdr ← payloadOf p
              ip4Deliver p iphdrHlen iphdr src dest inp
              pure .ok
          else
            ip4Deliver p iphdrHlen iphdr src dest inp
            pure .ok

/-- The flags that the destination sets. -/
def linkFlags (dest : MacAddrT) (flags : Byte) : Byte :=
  if dest.addr1 &&& 1 ≠ 0 then
    if dest.addr1 = 0x01 then
      if dest.addr2 = 0x00 ∧ dest.addr3 = 0x5e then flags ||| pbufFlagLlmcast else flags
    else if MacAddrT.bytes dest = MacAddrT.bytes ethbroadcast then flags ||| pbufFlagLlbcast
    else flags
  else flags

/-- The place of `netif->input`, which is `ethernet_input`. -/
def ethernetInput (p : List Ptr) (netif : Ip4Netif) : Lw ErrT := do
  let b ← pbufOf p
  if b.len ≤ 14 then
    let _ ← freeChain p
    pure .ok
  else
    let ethhdr ← payloadOf p
    let type ← load16 ethhdr 12
    setPbuf (first p) fun b ↦ { b with ifIdx := if b.ifIdx = netifNoIndex then netif.num + 1 else b.ifIdx }
    let dest ← loadMac ethhdr 0
    setPbuf (first p) fun b ↦ { b with flags := linkFlags dest b.flags }
    if type = lwipHtons ethtypeIp then
      if netif.flags &&& netifFlagEtharp = 0 then
        let _ ← freeChain p
      else if ← pbufRemoveHeader p 14 then
        let _ ← freeChain p
      else
        let _ ← ip4Input p netif
      pure .ok
    else if type = lwipHtons ethtypeArp then
      if netif.flags &&& netifFlagEtharp = 0 then
        let _ ← freeChain p
      else if ← pbufRemoveHeader p 14 then
        let _ ← freeChain p
      else
        etharpInput p netif
      pure .ok
    else
      let _ ← freeChain p
      pure .ok

end Functions

section Main

/-- The state that `lwip_init` leaves. -/
def lwipInit : Stack where
  memory := ⟨(List.range pbufPoolSize).reverse, [], [], fun _ ↦ ⟨fun _ ↦ 0, 0, 0, 0, 0, 0, 0, 0⟩⟩
  ram := memInit
  arpTable _ := ⟨[], 0, ethzero, 0, .empty⟩
  etharpCachedEntry := 0
  reassdatagrams := []
  ipReassPbufcount := 0
  mempReassdata := 5
  ipId := 0
  ipData := ⟨⟨0, 0⟩, 0, 0⟩
  sent := []

/-- The interface once `netif_add` has called `ethernetif_init`. -/
def netifAdd (netif : Netif) (ipaddr netmask gw : Word32) : Ip4Netif :=
  { (ethernetifInit netif).2 with ipAddr := ipaddr, netmask, gw, num := 0 }

def netifIssueReports (netif : Ip4Netif) : Lw Unit := do
  if !isLinkUp netif || !isUp netif then pure ()
  else if !ip4AddrIsany netif.ipAddr ∧ netif.flags &&& netifFlagEtharp ≠ 0 then
    let _ ← etharpRequest netif netif.ipAddr

def netifSetUp (netif : Ip4Netif) : Lw Ip4Netif := do
  if !isUp netif then
    let netif := { netif with flags := netif.flags ||| netifFlagUp }
    netifIssueReports netif
    pure netif
  else pure netif

end Main

end Enc28j60.Lwip
