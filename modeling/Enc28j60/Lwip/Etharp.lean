import Enc28j60.Lwip.Stack

namespace Enc28j60.Lwip

open RegisterMap LowLayer Ethernetif

section Addresses

def ip4AddrIsany (addr : Word32) : Bool := addr == 0

def ip4AddrIsmulticast (addr : Word32) : Bool := addr &&& lwipHtonl 0xf0000000 == lwipHtonl 0xe0000000

def ip4AddrIslinklocal (addr : Word32) : Bool := addr &&& lwipHtonl 0xffff0000 == lwipHtonl 0xa9fe0000

def ip4AddrIsloopback (addr : Word32) : Bool := addr &&& lwipHtonl 0xff000000 == lwipHtonl 0x7f000000

def ip4AddrNetEq (addr1 addr2 mask : Word32) : Bool := addr1 &&& mask == addr2 &&& mask

def ip4AddrIsbroadcast (addr : Word32) (netif : Ip4Netif) : Bool :=
  if ~~~addr = 0 ∨ addr = 0 then true
  else if netif.flags &&& netifFlagBroadcast = 0 then false
  else if addr = netif.ipAddr then false
  else ip4AddrNetEq addr netif.ipAddr netif.netmask && addr &&& ~~~netif.netmask == 0xffffffff &&& ~~~netif.netmask

end Addresses

section Ethernet

def ethbroadcast : MacAddrT := ⟨0xff, 0xff, 0xff, 0xff, 0xff, 0xff⟩
def ethzero : MacAddrT := ⟨0, 0, 0, 0, 0, 0⟩

def ethtypeIp : Word := 0x0800
def ethtypeArp : Word := 0x0806

def ethernetOutput (netif : Ip4Netif) (p : List Ptr) (src dst : MacAddrT) (ethType : Word) : Lw ErrT := do
  if ← pbufAddHeader p 14 then pure .buf
  else
    let ethhdr ← payloadOf p
    store16 ethhdr 12 (lwipHtons ethType)
    storeMac ethhdr 0 dst
    storeMac ethhdr 6 src
    linkoutput netif p

end Ethernet

section Arp

def arpMaxage : Word := 300
def arpAgeRerequestUsedUnicast : Word := arpMaxage - 30
def arpAgeRerequestUsedBroadcast : Word := arpMaxage - 15
def arpMaxpending : Word := 5

def etharpFlagTryHard : Byte := 1
def etharpFlagFindOnly : Byte := 2

def arpRequest : Word := 1
def arpReply : Word := 2

def setEntry (i : Fin 10) (f : EtharpEntry → EtharpEntry) : Lw Unit :=
  modify fun s ↦ { s with arpTable := Function.update s.arpTable i (f (s.arpTable i)) }

def entry (i : Fin 10) : Lw EtharpEntry := do
  let s ← get
  pure (s.arpTable i)

def etharpFreeEntry (i : Fin 10) : Lw Unit := do
  let e ← entry i
  if e.q ≠ [] then
    let _ ← freeChain e.q
    setEntry i fun e ↦ { e with q := [] }
  setEntry i fun e ↦ { e with state := .empty }

def etharpRaw (netif : Ip4Netif) (ethsrcAddr ethdstAddr hwsrcAddr : MacAddrT) (ipsrcAddr : Word32)
    (hwdstAddr : MacAddrT) (ipdstAddr : Word32) (opcode : Word) : Lw ErrT := do
  let p ← pbufAllocRam pbufLink 28
  if p = [] then pure .mem
  else
    let hdr ← payloadOf p
    store16 hdr 6 (lwipHtons opcode)
    storeMac hdr 8 hwsrcAddr
    storeMac hdr 18 hwdstAddr
    store32 hdr 14 ipsrcAddr
    store32 hdr 24 ipdstAddr
    store16 hdr 0 (lwipHtons 1)
    store16 hdr 2 (lwipHtons ethtypeIp)
    store8 hdr 4 6
    store8 hdr 5 4
    let _ ← ethernetOutput netif p ethsrcAddr ethdstAddr ethtypeArp
    let _ ← freeChain p
    pure .ok

def etharpRequestDst (netif : Ip4Netif) (ipaddr : Word32) (hwDstAddr : MacAddrT) : Lw ErrT :=
  etharpRaw netif netif.hwaddr hwDstAddr netif.hwaddr netif.ipAddr ethzero ipaddr arpRequest

def etharpRequest (netif : Ip4Netif) (ipaddr : Word32) : Lw ErrT := etharpRequestDst netif ipaddr ethbroadcast

/-- The pass of `etharp_tmr` for one entry. -/
def etharpTmrEntry (netif : Ip4Netif) (i : Fin 10) : Lw Unit := do
  let e ← entry i
  if e.state ≠ .empty then
    setEntry i fun e ↦ { e with ctime := e.ctime + 1 }
    let e ← entry i
    if arpMaxage ≤ e.ctime ∨ e.state = .pending ∧ arpMaxpending ≤ e.ctime then etharpFreeEntry i
    else
      match e.state with
      | .stableRerequesting1 => setEntry i fun e ↦ { e with state := .stableRerequesting2 }
      | .stableRerequesting2 => setEntry i fun e ↦ { e with state := .stable }
      | .pending =>
        let _ ← etharpRequest netif e.ipaddr
      | _ => pure ()

def etharpTmr (netif : Ip4Netif) : Lw Unit := (List.finRange 10).forM (etharpTmrEntry netif)

/-- The candidates that the loop of `etharp_find_entry` keeps, with their ages. -/
structure EtharpScan where
  oldPending : Option (Fin 10)
  oldStable : Option (Fin 10)
  empty : Option (Fin 10)
  oldQueue : Option (Fin 10)
  ageQueue : Word
  agePending : Word
  ageStable : Word

/-- What the loop of `etharp_find_entry` makes of an entry for another address. -/
def EtharpScan.visit (i : Fin 10) (e : EtharpEntry) (c : EtharpScan) : EtharpScan :=
  if c.empty = none ∧ e.state = .empty then { c with empty := some i }
  else if e.state = .pending then
    if e.q ≠ [] then if c.ageQueue ≤ e.ctime then { c with oldQueue := some i, ageQueue := e.ctime } else c
    else if c.agePending ≤ e.ctime then { c with oldPending := some i, agePending := e.ctime } else c
  else if e.state.resolved then
    if c.ageStable ≤ e.ctime then { c with oldStable := some i, ageStable := e.ctime } else c
  else c

/-- The loop of `etharp_find_entry`: the entry for the address, or the candidates. -/
def etharpScan (tbl : Fin 10 → EtharpEntry) (ipaddr : Word32) : List (Fin 10) → EtharpScan → Fin 10 ⊕ EtharpScan
  | [], c => .inr c
  | i :: l, c =>
    if (tbl i).state ≠ .empty ∧ (tbl i).ipaddr = ipaddr then .inl i
    else etharpScan tbl ipaddr l (c.visit i (tbl i))

/-- The entry to be recycled: the oldest stable one, else the oldest pending one, one without a packet
first. -/
def EtharpScan.recycled (c : EtharpScan) : Option (Fin 10) := c.oldStable <|> c.oldPending <|> c.oldQueue

def etharpFindEntry (ipaddr : Word32) (flags : Byte) : Lw (Except ErrT (Fin 10)) := do
  let s ← get
  match etharpScan s.arpTable ipaddr (List.finRange 10) ⟨none, none, none, none, 0, 0, 0⟩ with
  | .inl i => pure (.ok i)
  | .inr c =>
    if flags &&& etharpFlagFindOnly ≠ 0 ∨ c.empty = none ∧ flags &&& etharpFlagTryHard = 0 then
      pure (.error .mem)
    else
      match c.empty, c.recycled with
      | some i, _ =>
        setEntry i fun e ↦ { e with ipaddr, ctime := 0 }
        pure (.ok i)
      | none, some i =>
        etharpFreeEntry i
        setEntry i fun e ↦ { e with ipaddr, ctime := 0 }
        pure (.ok i)
      | none, none => pure (.error .mem)

def etharpUpdateArpEntry (netif : Ip4Netif) (ipaddr : Word32) (ethaddr : MacAddrT) (flags : Byte) : Lw ErrT := do
  if ip4AddrIsany ipaddr || ip4AddrIsbroadcast ipaddr netif || ip4AddrIsmulticast ipaddr then pure .arg
  else
    match ← etharpFindEntry ipaddr flags with
    | .error e => pure e
    | .ok i =>
      setEntry i fun e ↦ { e with state := .stable, ethaddr, ctime := 0 }
      let e ← entry i
      if e.q ≠ [] then
        setEntry i fun e ↦ { e with q := [] }
        let _ ← ethernetOutput netif e.q netif.hwaddr ethaddr ethtypeIp
        let _ ← freeChain e.q
        pure .ok
      else pure .ok

def etharpInput (p : List Ptr) (netif : Ip4Netif) : Lw Unit := do
  let hdr ← payloadOf p
  let hwtype ← load16 hdr 0
  let hwlen ← load8 hdr 4
  let protolen ← load8 hdr 5
  let proto ← load16 hdr 2
  if hwtype ≠ lwipHtons 1 ∨ hwlen ≠ 6 ∨ protolen ≠ 4 ∨ proto ≠ lwipHtons ethtypeIp then
    let _ ← freeChain p
  else
    let sipaddr ← load32 hdr 14
    let dipaddr ← load32 hdr 24
    let forUs := !ip4AddrIsany netif.ipAddr && dipaddr == netif.ipAddr
    let fromUs := !ip4AddrIsany netif.ipAddr && sipaddr == netif.ipAddr
    let shwaddr ← loadMac hdr 8
    let _ ← etharpUpdateArpEntry netif sipaddr shwaddr (if forUs then etharpFlagTryHard else etharpFlagFindOnly)
    let opcode ← load16 hdr 6
    if opcode = lwipHtons arpRequest ∧ forUs ∧ !fromUs then
      let shwaddr ← loadMac hdr 8
      let _ ← etharpRaw netif netif.hwaddr shwaddr netif.hwaddr netif.ipAddr shwaddr sipaddr arpReply
    let _ ← freeChain p

def etharpOutputToArpIndex (netif : Ip4Netif) (q : List Ptr) (arpIdx : Fin 10) : Lw ErrT := do
  let e ← entry arpIdx
  if e.state = .stable then
    if arpAgeRerequestUsedBroadcast ≤ e.ctime then
      if (← etharpRequest netif e.ipaddr) = .ok then
        setEntry arpIdx fun e ↦ { e with state := .stableRerequesting1 }
    else if arpAgeRerequestUsedUnicast ≤ e.ctime then
      if (← etharpRequestDst netif e.ipaddr e.ethaddr) = .ok then
        setEntry arpIdx fun e ↦ { e with state := .stableRerequesting1 }
  let e ← entry arpIdx
  ethernetOutput netif q netif.hwaddr e.ethaddr ethtypeIp

/-- The loop of `etharp_query` that asks whether a buffer of the packet has to be copied. -/
def copyNeeded (m : Memory) (q : List Ptr) : Bool :=
  q.any fun x ↦ (m.pbuf x).typeInternal &&& pbufTypeFlagDataVolatile != 0

/-- The end of `etharp_query`, where the packet waits in the entry in place of any other. -/
def queuePacket (i : Fin 10) (q : List Ptr) : Lw ErrT := do
  let s ← get
  let p ← if copyNeeded s.memory q then pbufClone pbufLink q
    else do
      pbufRef q
      pure q
  if p ≠ [] then
    let e ← entry i
    if e.q ≠ [] then
      let _ ← freeChain e.q
    setEntry i fun e ↦ { e with q := p }
    pure .ok
  else pure .mem

/-- `etharp_query` once the entry is there, and any request is out with `result`. -/
def sendOrQueue (netif : Ip4Netif) (i : Fin 10) (q : List Ptr) (result : ErrT) : Lw ErrT := do
  if q = [] then pure result
  else
    let e ← entry i
    if e.state.resolved then
      modify fun s ↦ { s with etharpCachedEntry := i }
      ethernetOutput netif q netif.hwaddr e.ethaddr ethtypeIp
    else if e.state = .pending then queuePacket i q
    else pure result

def etharpQuery (netif : Ip4Netif) (ipaddr : Word32) (q : List Ptr) : Lw ErrT := do
  if ip4AddrIsany ipaddr || ip4AddrIsbroadcast ipaddr netif || ip4AddrIsmulticast ipaddr then pure .arg
  else
    match ← etharpFindEntry ipaddr etharpFlagTryHard with
    | .error e => pure e
    | .ok i =>
      let e ← entry i
      let isNewEntry := e.state == .empty
      if isNewEntry then setEntry i fun e ↦ { e with state := .pending }
      if isNewEntry ∨ q = [] then
        let result ← etharpRequest netif ipaddr
        let e ← entry i
        if result = .ok ∧ e.state = .pending ∧ !isNewEntry then setEntry i fun e ↦ { e with ctime := 0 }
        sendOrQueue netif i q result
      else sendOrQueue netif i q .mem

/-- The loop of `etharp_output` over the table. -/
def findStable (tbl : Fin 10 → EtharpEntry) (dstAddr : Word32) : Option (Fin 10) :=
  (List.finRange 10).find? fun i ↦ (tbl i).state.resolved && dstAddr == (tbl i).ipaddr

def etharpOutput (netif : Ip4Netif) (q : List Ptr) (ipaddr : Word32) : Lw ErrT := do
  if ip4AddrIsbroadcast ipaddr netif then ethernetOutput netif q netif.hwaddr ethbroadcast ethtypeIp
  else if ip4AddrIsmulticast ipaddr then
    let mcastaddr : MacAddrT :=
      ⟨0x01, 0x00, 0x5e, (ipaddr >>> 8).setWidth 8 &&& 0x7f, (ipaddr >>> 16).setWidth 8, (ipaddr >>> 24).setWidth 8⟩
    ethernetOutput netif q netif.hwaddr mcastaddr ethtypeIp
  else if !ip4AddrNetEq ipaddr netif.ipAddr netif.netmask && !ip4AddrIslinklocal ipaddr &&
      ip4AddrIsany netif.gw then pure .rte
  else
    let dstAddr :=
      if !ip4AddrNetEq ipaddr netif.ipAddr netif.netmask && !ip4AddrIslinklocal ipaddr then netif.gw else ipaddr
    let s ← get
    let c := s.arpTable s.etharpCachedEntry
    if c.state.resolved ∧ dstAddr = c.ipaddr then etharpOutputToArpIndex netif q s.etharpCachedEntry
    else
      match findStable s.arpTable dstAddr with
      | some i =>
        modify fun s ↦ { s with etharpCachedEntry := i }
        etharpOutputToArpIndex netif q i
      | none => etharpQuery netif dstAddr q

end Arp

end Enc28j60.Lwip
