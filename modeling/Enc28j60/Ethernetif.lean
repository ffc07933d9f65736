import Enc28j60.Interface
import Enc28j60.Lwip.Pbuf

namespace Enc28j60.Ethernetif

open Interaction RegisterMap Port LowLayer Interface Lwip

/-- `struct netif`, as far as `ethernetif_init` fills it in with data. -/
structure Netif where
  name : Byte × Byte
  hwaddrLen : Byte
  hwaddr : MacAddrT
  mtu : Word
  flags : Byte

def netifFlagBroadcast : Byte := 0x02
def netifFlagLinkUp : Byte := 0x04
def netifFlagEtharp : Byte := 0x08
def netifFlagEthernet : Byte := 0x10

def ethHwaddrLen : Byte := 6
def sizeofEthHdr : Word := 14

def ethernetifInit (netif : Netif) : ErrT × Netif :=
  (.ok, { netif with
    name := (0x65, 0x6e)
    hwaddrLen := ethHwaddrLen
    hwaddr := ⟨0x02, 0x00, 0x00, 0x00, 0x00, 0x01⟩
    mtu := 1500
    flags := netifFlagBroadcast ||| netifFlagEtharp ||| netifFlagLinkUp ||| netifFlagEthernet })

/-- The size of the buffer that the main loop passes to `low_level_input`. -/
def ethBufferSize : Word := 1520

/-- The memory at `payload`. -/
def data (b : Pbuf) (i : ℤ) : Byte := b.store (b.payload + i).toNat

/-- The results are the chain, the memory at `buf` and that of the stack. -/
def lowLevelInput (_netif : Netif) (buf : ℕ → Byte) (bufSize : Word) (m : Memory) :
    Drv (Option (List Ptr) × (ℕ → Byte) × Memory) := do
  let (len, buf) ← enc28j60ReceivePacket buf bufSize
  if len = 0 then pure (none, buf, m)
  else
    match pbufAlloc pbufRaw len m with
    | (none, m) => pure (none, buf, m)
    | (some p, m) => pure (some p, buf, (pbufTake p buf len m).2)

def lowLevelOutput (_netif : Netif) (m : Memory) (p : List Ptr) : Drv ErrT := do
  enc28j60PrepareToTx
  let control : Byte := 0x00
  enc28j60WriteToTx (fun _ ↦ control) 1
  p.forM fun q ↦ enc28j60WriteToTx (data (m.pbuf q)) (m.pbuf q).len
  enc28j60ReadyToSend
  pure .ok

end Enc28j60.Ethernetif
