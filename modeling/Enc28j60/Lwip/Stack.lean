import Enc28j60.Ethernetif
import Enc28j60.Lwip.Mem

namespace Enc28j60.Lwip

open RegisterMap LowLayer Ethernetif

/-- `u32_t`. An address is the word that its bytes make in memory, the first one lowest. -/
abbrev Word32 := BitVec 32

section State

inductive EtharpState where
  | empty
  | pending
  | stable
  | stableRerequesting1
  | stableRerequesting2
  deriving DecidableEq

/-- The test `state >= ETHARP_STATE_STABLE`. -/
def EtharpState.resolved : EtharpState → Bool
  | .empty | .pending => false
  | _ => true

/-- `struct etharp_entry`. There is one interface, so an entry does not name it. -/
structure EtharpEntry where
  q : List Ptr
  ipaddr : Word32
  ethaddr : MacAddrT
  ctime : Word
  state : EtharpState

/-- `struct ip_reass_helper`: what a queued fragment holds in place of its header. The list of the
fragments stands for `next_pbuf`. -/
structure IpReassHelper where
  pbuf : List Ptr
  start : Word
  stop : Word

structure IpReassdata where
  p : List IpReassHelper
  iphdr : List Byte
  datagramLen : Word
  flags : Byte
  timer : Byte

/-- A place in the memory behind a buffer. -/
structure Loc where
  buf : Ptr
  off : ℕ

/-- `ip_data`, as far as it is read. -/
structure IpGlobals where
  currentIp4Header : Loc
  currentIphdrSrc : Word32
  currentIphdrDest : Word32

/-- `struct netif`, with the addresses that `netif_add` fills in. -/
structure Ip4Netif extends Netif where
  ipAddr : Word32
  netmask : Word32
  gw : Word32
  num : Byte

/-- The variables of the stack. `sent` is no variable: it is what `netif->linkoutput` has been called
with, the last call last. -/
structure Stack where
  memory : Memory
  ram : Heap
  arpTable : Fin 10 → EtharpEntry
  etharpCachedEntry : Fin 10
  reassdatagrams : List IpReassdata
  ipReassPbufcount : Word
  mempReassdata : ℕ
  ipId : Word
  ipData : IpGlobals
  sent : List (Memory × List Ptr)

abbrev Lw := StateM Stack

end State

section Access

variable {α : Type}

def setMemory (f : Memory → Memory) : Lw Unit := modify fun s ↦ { s with memory := f s.memory }

/-- The first buffer of a chain; no caller passes the null pointer. -/
def first (p : List Ptr) : Ptr := p.headD 0

def pbufOf (p : List Ptr) : Lw Pbuf := do
  let s ← get
  pure (s.memory.pbuf (first p))

def setPbuf (x : Ptr) (f : Pbuf → Pbuf) : Lw Unit := setMemory fun m ↦ m.set x (f (m.pbuf x))

/-- `p->payload` -/
def payloadOf (p : List Ptr) : Lw Loc := do
  let b ← pbufOf p
  pure ⟨first p, b.payload⟩

def Loc.add (l : Loc) (n : ℕ) : Loc := ⟨l.buf, l.off + n⟩

def byteAt (m : Memory) (l : Loc) (i : ℕ) : Byte := (m.pbuf l.buf).store (l.off + i)

def load8 (l : Loc) (i : ℕ) : Lw Byte := do
  let s ← get
  pure (byteAt s.memory l i)

def word16 (m : Memory) (l : Loc) (i : ℕ) : Word := byteAt m l (i + 1) ++ byteAt m l i

def load16 (l : Loc) (i : ℕ) : Lw Word := do
  let s ← get
  pure (word16 s.memory l i)

def word32 (m : Memory) (l : Loc) (i : ℕ) : Word32 := word16 m l (i + 2) ++ word16 m l i

def load32 (l : Loc) (i : ℕ) : Lw Word32 := do
  let s ← get
  pure (word32 s.memory l i)

def macAt (m : Memory) (l : Loc) (i : ℕ) : MacAddrT :=
  ⟨byteAt m l i, byteAt m l (i + 1), byteAt m l (i + 2), byteAt m l (i + 3), byteAt m l (i + 4), byteAt m l (i + 5)⟩

def loadMac (l : Loc) (i : ℕ) : Lw MacAddrT := do
  let s ← get
  pure (macAt s.memory l i)

def bytesAt (m : Memory) (l : Loc) (n : ℕ) : List Byte := (List.range n).map (byteAt m l)

def loadBytes (l : Loc) (n : ℕ) : Lw (List Byte) := do
  let s ← get
  pure (bytesAt s.memory l n)

/-- The bytes are written from `i` on. -/
def Pbuf.put (i : ℕ) (bytes : List Byte) (b : Pbuf) : Pbuf :=
  { b with store := fun j ↦ if i ≤ j ∧ j < i + bytes.length then bytes.getD (j - i) 0 else b.store j }

def storeBytes (l : Loc) (i : ℕ) (bytes : List Byte) : Lw Unit := setPbuf l.buf (Pbuf.put (l.off + i) bytes)

def bytes16 (v : Word) : List Byte := [v.setWidth 8, (v >>> 8).setWidth 8]

def bytes32 (v : Word32) : List Byte := bytes16 (v.setWidth 16) ++ bytes16 ((v >>> 16).setWidth 16)

def MacAddrT.bytes (a : MacAddrT) : List Byte := [a.addr1, a.addr2, a.addr3, a.addr4, a.addr5, a.addr6]

def store8 (l : Loc) (i : ℕ) (v : Byte) : Lw Unit := storeBytes l i [v]

def store16 (l : Loc) (i : ℕ) (v : Word) : Lw Unit := storeBytes l i (bytes16 v)

def store32 (l : Loc) (i : ℕ) (v : Word32) : Lw Unit := storeBytes l i (bytes32 v)

def storeMac (l : Loc) (i : ℕ) (v : MacAddrT) : Lw Unit := storeBytes l i (MacAddrT.bytes v)

def lwipHtons (n : Word) : Word := (n &&& 0x00ff) <<< 8 ||| (n &&& 0xff00) >>> 8

def lwipHtonl (n : Word32) : Word32 :=
  (n &&& 0x000000ff) <<< 24 ||| (n &&& 0x0000ff00) <<< 8 ||| (n &&& 0x00ff0000) >>> 8 ||| (n &&& 0xff000000) >>> 24

end Access

section Buffers

def sizeofStructPbuf : Word := 16

def pbufLinkHlen : Word := 14
def pbufLink : Word := pbufLinkHlen
def pbufIp : Word := pbufLink + 20

def pbufTypeFlagStructDataContiguous : Byte := 0x80
def pbufTypeFlagDataVolatile : Byte := 0x40

/-- The address of the block at an offset in the heap. -/
def ramPtr (p : ℕ) : Ptr := pbufPoolSize + p

/-- The end of a pass of `pbuf_free`: a buffer of the heap goes through `mem_free`. -/
def freePbuf (x : Ptr) : Lw Unit := do
  let s ← get
  if (s.memory.pbuf x).typeInternal &&& pbufTypeAllocSrcMask = pbufTypeAllocSrcMaskStdHeap then
    set { s with memory := release x s.memory, ram := memFree (x - pbufPoolSize) s.ram }
  else
    set { s with memory := release x s.memory }

/-- `pbuf_free`, with the heap behind it. -/
def freeChain : List Ptr → Lw Byte
  | [] => pure 0
  | x :: next => do
    setPbuf x fun b ↦ { b with ref := b.ref - 1 }
    let b ← pbufOf [x]
    if b.ref = 0 then
      freePbuf x
      let count ← freeChain next
      pure (count + 1)
    else pure 0

/-- `LWIP_MEM_ALIGN_SIZE` where the result is not cut to 16 bits. -/
def memAlignSize (size : ℕ) : ℕ := (size + 3) / 4 * 4

/-- `pbuf_alloc` with the type `PBUF_RAM`; the null pointer is the empty chain. -/
def pbufAllocRam (layer length : Word) : Lw (List Ptr) := do
  let payloadLen := BitVec.ofNat 16 (memAlignSize layer.toNat + memAlignSize length.toNat)
  let allocLen := BitVec.ofNat 16 (memAlignSize sizeofStructPbuf.toNat + payloadLen.toNat)
  if payloadLen.toNat < memAlignSize length.toNat ∨ allocLen.toNat < memAlignSize length.toNat then pure []
  else
    let s ← get
    match memMalloc allocLen s.ram with
    | (none, ram) =>
      set { s with ram }
      pure []
    | (some p, ram) =>
      let x := ramPtr p
      set { s with
        ram
        memory := pbufInitAllocedPbuf x (memAlignSize layer.toNat) length length .ram 0
          { s.memory with heap := x :: s.memory.heap } }
      pure [x]

/-- The loop of `pbuf_realloc`. The assertion that the chain goes on holds as long as its total length
is right. -/
def pbufReallocLoop (shrink : Word) : List Ptr → Word → Lw (List Ptr)
  | [], _ => pure []
  | q :: next, remLen => do
    let b ← pbufOf [q]
    if b.len < remLen then
      setPbuf q fun b ↦ { b with totLen := b.totLen - shrink }
      let next ← pbufReallocLoop shrink next (remLen - b.len)
      pure (q :: next)
    else
      setPbuf q fun b ↦ { b with len := remLen, totLen := remLen }
      if next ≠ [] then
        let _ ← freeChain next
        pure [q]
      else pure [q]

def pbufRealloc (p : List Ptr) (newLen : Word) : Lw (List Ptr) := do
  let b ← pbufOf p
  if b.totLen ≤ newLen then pure p
  else pbufReallocLoop (b.totLen - newLen) p newLen

/-- The result is true for the failure that the code reports as 1. -/
def pbufAddHeaderImpl (p : List Ptr) (headerSizeIncrement : ℕ) (force : Bool) : Lw Bool := do
  if 0xFFFF < headerSizeIncrement then pure true
  else if headerSizeIncrement = 0 then pure false
  else
    let incrementMagnitude := BitVec.ofNat 16 headerSizeIncrement
    let b ← pbufOf p
    if incrementMagnitude + b.totLen < incrementMagnitude then pure true
    else if b.typeInternal &&& pbufTypeFlagStructDataContiguous ≠ 0 ∧ b.payload < headerSizeIncrement then
      pure true
    else if b.typeInternal &&& pbufTypeFlagStructDataContiguous = 0 ∧ !force then pure true
    else
      setPbuf (first p) fun b ↦ { b with
        payload := b.payload - headerSizeIncrement
        len := b.len + incrementMagnitude
        totLen := b.totLen + incrementMagnitude }
      pure false

def pbufAddHeader (p : List Ptr) (headerSizeIncrement : ℕ) : Lw Bool :=
  pbufAddHeaderImpl p headerSizeIncrement false

def pbufRemoveHeader (p : List Ptr) (headerSizeDecrement : ℕ) : Lw Bool := do
  if 0xFFFF < headerSizeDecrement then pure true
  else if headerSizeDecrement = 0 then pure false
  else
    let incrementMagnitude := BitVec.ofNat 16 headerSizeDecrement
    let b ← pbufOf p
    if b.len < incrementMagnitude then pure true
    else
      setPbuf (first p) fun b ↦ { b with
        payload := b.payload + headerSizeDecrement
        len := b.len - incrementMagnitude
        totLen := b.totLen - incrementMagnitude }
      pure false

def pbufHeaderForce (p : List Ptr) (headerSizeIncrement : ℤ) : Lw Bool :=
  if headerSizeIncrement < 0 then pbufRemoveHeader p (-headerSizeIncrement).toNat
  else pbufAddHeaderImpl p headerSizeIncrement.toNat true

def pbufRef (p : List Ptr) : Lw Unit :=
  if p = [] then pure () else setPbuf (first p) fun b ↦ { b with ref := b.ref + 1 }

def pbufClen (p : List Ptr) : Word := BitVec.ofNat 16 p.length

/-- The total lengths of the head's buffers grow by that of the tail. -/
def pbufCat (h t : List Ptr) : Lw (List Ptr) := do
  let b ← pbufOf t
  h.forM fun x ↦ setPbuf x fun c ↦ { c with totLen := c.totLen + b.totLen }
  pure (h ++ t)

/-- The loop of `pbuf_copy_partial_pbuf`; every round but the last goes on to a next buffer. -/
def pbufCopyLoop : ℕ → List Ptr → List Ptr → ℕ → ℕ → ℕ → Lw ErrT
  | 0, _, _, _, _, _ => pure .arg
  | fuel + 1, pTo, pFrom, offsetTo, offsetFrom, copyLen => do
    let a ← pbufOf pTo
    let b ← pbufOf pFrom
    let room := if b.len.toNat - offsetFrom ≤ a.len.toNat - offsetTo then b.len.toNat - offsetFrom
      else a.len.toNat - offsetTo
    let len := min copyLen room
    let bytes ← loadBytes ⟨first pFrom, b.payload + offsetFrom⟩ len
    storeBytes ⟨first pTo, a.payload + offsetTo⟩ 0 bytes
    let copyLen := copyLen - len
    let (pFrom, offsetFrom) :=
      if b.len.toNat ≤ offsetFrom + len then (pFrom.tail, 0) else (pFrom, offsetFrom + len)
    let (pTo, offsetTo) := if offsetTo + len = a.len.toNat then (pTo.tail, 0) else (pTo, offsetTo + len)
    if copyLen = 0 then pure .ok
    else if pFrom = [] ∨ pTo = [] then pure .arg
    else pbufCopyLoop fuel pTo pFrom offsetTo offsetFrom copyLen

def pbufCopyPartialPbuf (pTo pFrom : List Ptr) (copyLen offset : Word) : Lw ErrT := do
  let a ← pbufOf pTo
  let b ← pbufOf pFrom
  if pFrom = [] ∨ b.totLen < copyLen then pure .arg
  else if pTo = [] ∨ a.totLen.toNat < offset.toNat + copyLen.toNat then pure .arg
  else pbufCopyLoop (pTo.length + pFrom.length) pTo pFrom offset.toNat 0 copyLen.toNat

def pbufCopy (pTo pFrom : List Ptr) : Lw ErrT := do
  let b ← pbufOf pFrom
  pbufCopyPartialPbuf pTo pFrom b.totLen 0

/-- `pbuf_clone` with the type `PBUF_RAM` -/
def pbufClone (layer : Word) (p : List Ptr) : Lw (List Ptr) := do
  let b ← pbufOf p
  let q ← pbufAllocRam layer b.totLen
  if q = [] then pure []
  else
    let _ ← pbufCopy q p
    pure q

/-- `netif->linkoutput`, which is `low_level_output`: it reads the chain and reports success. -/
def linkoutput (_netif : Ip4Netif) (p : List Ptr) : Lw ErrT := do
  modify fun s ↦ { s with sent := s.sent ++ [(s.memory, p)] }
  pure .ok

end Buffers

end Enc28j60.Lwip
