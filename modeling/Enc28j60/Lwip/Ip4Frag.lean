import Enc28j60.Lwip.Icmp

namespace Enc28j60.Lwip

open RegisterMap LowLayer Ethernetif

section Functions

def ipReassMaxPbufs : ℕ := 10
def ipReassMaxage : Byte := 15
def ipReassFlagLastfrag : Byte := 0x01

def ipMf : Word := 0x2000
def ipOffmask : Word := 0x1fff

/-- What `IP_ADDRESSES_AND_ID_MATCH` compares: the identification and the two addresses. -/
def datagramKey (iphdr : List Byte) : List Byte := (iphdr.drop 4).take 2 ++ (iphdr.drop 12).take 8

/-- `IPH_OFFSET` of a header that has been copied. -/
def iphOffset (iphdr : List Byte) : Word := iphdr.getD 7 0 ++ iphdr.getD 6 0

def iphOffsetBytes (offset : Word) : Word := (lwipHtons offset &&& ipOffmask) * 8

/-- `ip_reass_dequeue_datagram` -/
def ipReassDequeueDatagram (i : ℕ) : Lw Unit :=
  modify fun s ↦ { s with reassdatagrams := s.reassdatagrams.eraseIdx i, mempReassdata := s.mempReassdata + 1 }

def setDatagram (i : ℕ) (f : IpReassdata → IpReassdata) : Lw Unit :=
  modify fun s ↦ { s with reassdatagrams := s.reassdatagrams.modify i f }

/-- The loop of `ip_reass_free_complete_datagram`; the result is the number of buffers freed. -/
def freeFragments : List IpReassHelper → Lw Word
  | [] => pure 0
  | iprh :: l => do
    let clen := pbufClen iprh.pbuf
    let _ ← freeChain iprh.pbuf
    let freed ← freeFragments l
    pure (clen + freed)

/-- The datagram is the `i`-th of the list. -/
def ipReassFreeCompleteDatagram (netif : Ip4Netif) (i : ℕ) : Lw Word := do
  let s ← get
  match s.reassdatagrams[i]? with
  | none => pure 0
  | some ipr =>
    let pbufsFreed ←
      match ipr.p with
      | iprh :: l =>
        if iprh.start = 0 then do
          setDatagram i fun r ↦ { r with p := l }
          let payload ← payloadOf iprh.pbuf
          storeBytes payload 0 ipr.iphdr
          icmpTimeExceeded iprh.pbuf icmpTeFrag netif
          let clen := pbufClen iprh.pbuf
          let _ ← freeChain iprh.pbuf
          let freed ← freeFragments l
          pure (clen + freed)
        else freeFragments (iprh :: l)
      | [] => pure 0
    ipReassDequeueDatagram i
    modify fun s ↦ { s with ipReassPbufcount := s.ipReassPbufcount - pbufsFreed }
    pure pbufsFreed

/-- The loop of `ip_reass_tmr`, at the `i`-th datagram. -/
def ipReassTmrLoop (netif : Ip4Netif) : ℕ → ℕ → Lw Unit
  | 0, _ => pure ()
  | fuel + 1, i => do
    let s ← get
    match s.reassdatagrams[i]? with
    | none => pure ()
    | some r =>
      if 0 < r.timer then
        setDatagram i fun r ↦ { r with timer := r.timer - 1 }
        ipReassTmrLoop netif fuel (i + 1)
      else
        let _ ← ipReassFreeCompleteDatagram netif i
        ipReassTmrLoop netif fuel i

def ipReassTmr (netif : Ip4Netif) : Lw Unit := do
  let s ← get
  ipReassTmrLoop netif (s.reassdatagrams.length + 1) 0

/-- The inner loop of `ip_reass_remove_oldest_datagram`: the oldest datagram but that of the fragment,
and how many others there are. -/
def oldestDatagram (key : List Byte) : List IpReassdata → ℕ → Option (ℕ × Byte) → ℕ → Option (ℕ × Byte) × ℕ
  | [], _, oldest, others => (oldest, others)
  | r :: l, i, oldest, others =>
    if datagramKey r.iphdr = key then oldestDatagram key l (i + 1) oldest others
    else
      match oldest with
      | none => oldestDatagram key l (i + 1) (some (i, r.timer)) (others + 1)
      | some (_, timer) =>
        oldestDatagram key l (i + 1) (if r.timer ≤ timer then some (i, r.timer) else oldest) (others + 1)

/-- The outer loop of `ip_reass_remove_oldest_datagram`. -/
def removeOldestLoop (netif : Ip4Netif) (key : List Byte) (pbufsNeeded : ℕ) : ℕ → ℕ → Lw ℕ
  | 0, pbufsFreed => pure pbufsFreed
  | fuel + 1, pbufsFreed => do
    let s ← get
    let (oldest, otherDatagrams) := oldestDatagram key s.reassdatagrams 0 none 0
    let pbufsFreed ←
      match oldest with
      | some (i, _) => do
        let current ← ipReassFreeCompleteDatagram netif i
        pure (pbufsFreed + current.toNat)
      | none => pure pbufsFreed
    if pbufsFreed < pbufsNeeded ∧ 1 < otherDatagrams then removeOldestLoop netif key pbufsNeeded fuel pbufsFreed
    else pure pbufsFreed

def ipReassRemoveOldestDatagram (netif : Ip4Netif) (fraghdr : List Byte) (pbufsNeeded : ℕ) : Lw ℕ := do
  let s ← get
  removeOldestLoop netif (datagramKey fraghdr) pbufsNeeded (s.reassdatagrams.length + 1) 0

/-- The new datagram comes first in the list. -/
def enqueueDatagram (fraghdr : List Byte) : Lw Bool := do
  modify fun s ↦ { s with
    reassdatagrams := ⟨[], fraghdr, 0, 0, ipReassMaxage⟩ :: s.reassdatagrams
    mempReassdata := s.mempReassdata - 1 }
  pure true

/-- False stands for the null pointer. -/
def ipReassEnqueueNewDatagram (netif : Ip4Netif) (fraghdr : List Byte) (clen : ℕ) : Lw Bool := do
  let s ← get
  if s.mempReassdata ≠ 0 then enqueueDatagram fraghdr
  else if clen ≤ (← ipReassRemoveOldestDatagram netif fraghdr clen) then
    let s ← get
    if s.mempReassdata ≠ 0 then enqueueDatagram fraghdr else pure false
  else pure false

/-- The loop of `ip_reass_chain_frag_into_datagram_and_validate`, with the fragment before: the
fragments before the new one and after it, and whether no gap has been seen. None stands for -1. -/
def chainLoop (iprh : IpReassHelper) : Option IpReassHelper → List IpReassHelper → Bool →
    Option (List IpReassHelper × List IpReassHelper × Bool)
  | prev, [], valid => some ([], [], valid && prev.all fun p ↦ p.stop == iprh.start)
  | prev, q :: l, valid =>
    if iprh.start < q.start then
      match prev with
      | some p =>
        if iprh.start < p.stop ∨ q.start < iprh.stop then none
        else some ([], q :: l, valid && p.stop == iprh.start)
      | none => if q.start < iprh.stop then none else some ([], q :: l, valid)
    else if iprh.start = q.start then none
    else if iprh.start < q.stop then none
    else
      match chainLoop iprh (some q) l (valid && prev.all fun p ↦ p.stop == q.start) with
      | none => none
      | some (before, after, valid) => some (q :: before, after, valid)

/-- The second loop: every fragment begins where the one before it stops. -/
def noGap : IpReassHelper → List IpReassHelper → Bool
  | _, [] => true
  | prev, q :: l => prev.stop == q.start && noGap q l

/-- `ip_reass_chain_frag_into_datagram_and_validate`, once the new fragment is known: the fragments in
order, and whether they are the whole datagram. -/
def chainFrag (ipr : IpReassdata) (iprh : IpReassHelper) (isLast : Bool) : Option (List IpReassHelper × Bool) :=
  match chainLoop iprh none ipr.p true with
  | none => none
  | some (before, after, valid) =>
    let p := before ++ iprh :: after
    if isLast ∨ ipr.flags &&& ipReassFlagLastfrag ≠ 0 then
      some (p, valid && p.head?.any (fun q ↦ q.start == 0) && noGap iprh after)
    else some (p, false)

/-- The loop of `ip4_reass` that puts the fragments after the first one to its chain. -/
def catFragments : List Ptr → List IpReassHelper → Lw (List Ptr)
  | p, [] => pure p
  | p, r :: l => do
    let _ ← pbufRemoveHeader r.pbuf ipHlen
    let p ← pbufCat p r.pbuf
    catFragments p l

/-- The end of `ip4_reass`, for a complete datagram: the `i`-th, whose first fragment is `iprh`. -/
def completeDatagram (i : ℕ) (ipr : IpReassdata) (iprh : IpReassHelper) (l : List IpReassHelper) :
    Lw (List Ptr) := do
  let fraghdr ← payloadOf iprh.pbuf
  storeBytes fraghdr 0 ipr.iphdr
  store16 fraghdr 2 (lwipHtons (ipr.datagramLen + BitVec.ofNat 16 ipHlen))
  store16 fraghdr 6 0
  store16 fraghdr 10 0
  let chksum ← loadChksum fraghdr ipHlen
  store16 fraghdr 10 chksum
  let p ← catFragments iprh.pbuf l
  ipReassDequeueDatagram i
  modify fun s ↦ { s with ipReassPbufcount := s.ipReassPbufcount - pbufClen p }
  pure p

/-- The jump to `nullreturn_ipr`, with the `i`-th datagram. -/
def nullreturnIpr (i : ℕ) (p : List Ptr) : Lw (List Ptr) := do
  let s ← get
  if (s.reassdatagrams[i]?).any fun ipr ↦ ipr.p.isEmpty then ipReassDequeueDatagram i
  let _ ← freeChain p
  pure []

/-- `ip4_reass`, from the fragment's datagram on: the `i`-th, `ipr`. -/
def reassInto (p : List Ptr) (fraghdr : List Byte) (len : Word) (i : ℕ) : Lw (List Ptr) := do
  let offset := iphOffsetBytes (iphOffset fraghdr)
  let isLast : Bool := iphOffset fraghdr &&& lwipHtons ipMf == 0
  let datagramLen := offset + len
  let iprh : IpReassHelper := ⟨p, offset, offset + len⟩
  let s ← get
  match s.reassdatagrams[i]? with
  | none => pure []
  | some ipr =>
    if isLast ∧ (datagramLen < offset ∨ 0xFFFF - BitVec.ofNat 16 ipHlen < datagramLen) then nullreturnIpr i p
    else if iprh.stop < offset then nullreturnIpr i p
    else
      match chainFrag ipr iprh isLast with
      | none => nullreturnIpr i p
      | some (l, valid) =>
        let ipr := { ipr with
          p := l
          datagramLen := if isLast then datagramLen else ipr.datagramLen
          flags := if isLast then ipr.flags ||| ipReassFlagLastfrag else ipr.flags }
        setDatagram i fun _ ↦ ipr
        modify fun s ↦ { s with ipReassPbufcount := s.ipReassPbufcount + pbufClen p }
        match valid, l with
        | true, iprh :: l => completeDatagram i ipr iprh l
        | _, _ => pure []

/-- A result of no chain stands for the null pointer. -/
def ip4Reass (netif : Ip4Netif) (p : List Ptr) : Lw (List Ptr) := do
  let payload ← payloadOf p
  let fraghdr ← loadBytes payload ipHlen
  let hlen := iphHlBytes (fraghdr.getD 0 0)
  let len := lwipHtons (fraghdr.getD 3 0 ++ fraghdr.getD 2 0)
  let nullreturn : Lw (List Ptr) := do
    let _ ← freeChain p
    pure []
  if hlen.toNat ≠ ipHlen then nullreturn
  else if len < hlen.setWidth 16 then nullreturn
  else
    let clen := (pbufClen p).toNat
    let s ← get
    let room ←
      if ipReassMaxPbufs < s.ipReassPbufcount.toNat + clen then do
        let freed ← ipReassRemoveOldestDatagram netif fraghdr clen
        let s ← get
        pure (decide (freed ≠ 0 ∧ s.ipReassPbufcount.toNat + clen ≤ ipReassMaxPbufs))
      else pure true
    if !room then nullreturn
    else
      let s ← get
      match s.reassdatagrams.findIdx? fun ipr ↦ datagramKey ipr.iphdr == datagramKey fraghdr with
      | some i =>
        if iphOffsetBytes (iphOffset fraghdr) = 0 then
          setDatagram i fun ipr ↦ if iphOffsetBytes (iphOffset ipr.iphdr) ≠ 0 then { ipr with iphdr := fraghdr } else ipr
        reassInto p fraghdr (len - hlen.setWidth 16) i
      | none =>
        if ← ipReassEnqueueNewDatagram netif fraghdr clen then
          reassInto p fraghdr (len - hlen.setWidth 16) 0
        else nullreturn

end Functions

end Enc28j60.Lwip
