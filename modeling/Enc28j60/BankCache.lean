import Enc28j60.Boot
import Enc28j60.Interaction.Session

namespace Enc28j60.BankCache

open Interaction RegisterMap SpiSlave Port LowLayer Interface Access Banking DataSheet Transfers
open Quiet Boot Miim

/-- The public functions of the low layer, for any register of the map. -/
inductive Call
  | softReset
  | bankChanging (newBank : BankT)
  | writeReg (reg : RegT) (value : Word) (h : reg ∈ registerMap)
  | readReg (reg : RegT) (h : reg ∈ registerMap)
  | bitfieldSet (reg : RegT) (mask : Byte) (h : reg ∈ registerMap)
  | bitfieldClear (reg : RegT) (mask : Byte) (h : reg ∈ registerMap)
  | writeBuf (buf : ℤ → Byte) (bufLng : Word)
  | readBuf (buf : ℕ → Byte) (length : Word)

def Call.run : Call → Drv Unit
  | .softReset => enc28j60SoftReset
  | .bankChanging b => enc28j60BankChanging b
  | .writeReg r v _ => enc28j60WriteReg r v
  | .readReg r _ => do
    let _ ← enc28j60ReadReg r
    pure ()
  | .bitfieldSet r m _ => enc28j60BitfieldSet r m
  | .bitfieldClear r m _ => enc28j60BitfieldClear r m
  | .writeBuf buf n => enc28j60WriteBuf buf n
  | .readBuf buf n => do
    let _ ← enc28j60ReadBuf buf n
    pure ()

/-- The calls after which the cached bank is still the selected one. `Common` stands for no
bank, and its two low bits are zero. -/
def Call.KeepsCache : Call → Enc28j60T → Prop
  | .softReset, d => d.bank.bits = 0
  | .writeReg r v _, d => r = ECON1 → d.bank ≠ .common → v.setWidth 2 = d.bank.bits
  | .bitfieldSet r m _, d =>
    r = ECON1 → d.bank ≠ .common → d.bank.bits ||| m.setWidth 2 = d.bank.bits
  | .bitfieldClear r m _, d =>
    r = ECON1 → d.bank ≠ .common → d.bank.bits &&& ~~~m.setWidth 2 = d.bank.bits
  | _, _ => True

/-- The chip and its own events, for a driver that may do anything. -/
def loose (g : Guard Chip) (tot : Prop) (si : Silicon) : Setting Chip Event :=
  ⟨chip si, Event.act si, g, tot⟩

variable {g : Guard Chip} {tot : Prop} {si : Silicon} {d : Enc28j60T} {s : Bus Chip}

theorem loose_lawful : Lawful (loose g tot si) := lawful fun e _ ↦ e.bsel

theorem stable_true : (loose g tot si).Stable fun _ ↦ True := fun _ _ _ ↦ trivial

theorem bankable_true (hr : ∀ o c, g.read ⟨o, ECON1, 0⟩ c) (hw : ∀ o b c, g.write ⟨o, ECON1, 0⟩ b c) :
    Bankable (loose g tot si) fun _ ↦ True :=
  ⟨stable_true, fun c _ ↦ ⟨hr _ c, fun _ ↦ True, stable_true, trivial, fun _ c' _ ↦
    ⟨hw _ _ c', trivial⟩⟩⟩

/-- The cached bank is right, and no window is open. -/
def Sound (si : Silicon) (d : Enc28j60T) (s : Bus Chip) : Prop :=
  s.window = .high ∧ Coherent (chip si) d s.chip

theorem sound_of_spec {α : Type} {m : Drv α} {e : α → Enc28j60T} {P : α → Chip → Prop}
    (h : (loose .anything False si).Spec (At (loose .anything False si) d fun _ ↦ True) m
      fun a ↦ At (loose .anything False si) (e a) (P a)) (hs : Sound si d s) :
    (loose .anything False si).Does m (fun _ ↦ Sound si) d s :=
  Machine.dwp_mono (h d s (.inl hs.1) ⟨rfl, hs.2, trivial⟩) fun _ _ _ h' ↦
    ⟨h'.1, h'.2.1 ▸ h'.2.2.1⟩

theorem does_call (k : Call) (hk : k.KeepsCache d) (hs : Sound si d s) :
    (loose .anything False si).Does k.run (fun _ ↦ Sound si) d s := by
  have hbank : Bankable (loose .anything False si) fun _ ↦ True :=
    bankable_true (fun _ _ ↦ trivial) fun _ _ _ ↦ trivial
  have hstable : (loose .anything False si).Stable fun _ ↦ True := stable_true
  cases k with
  | softReset =>
    refine Machine.dwp_mono (spec_softReset loose_lawful (d := d) hstable hstable
      (fun _ _ ↦ ⟨trivial, trivial⟩) d s (.inl hs.1) ⟨rfl, trivial⟩) ?_
    rintro - d' s' ⟨hw, rfl, hb, -⟩
    exact ⟨hw, .inr (hb.trans hk.symm)⟩
  | bankChanging b =>
    exact Machine.dwp_mono (loose_lawful.spec_bankChanging hbank b d s (.inl hs.1) ⟨rfl, trivial⟩)
      fun _ _ _ h ↦ ⟨h.1, h.2.1 ▸ h.2.2.1⟩
  | writeReg r v hr =>
    by_cases ht : r.type = .phyR
    · exact sound_of_spec (spec_writePhy loose_lawful hr ht (P := fun _ ↦ True) (F := fun _ ↦ True)
        (G := fun _ ↦ True) (W := fun _ _ ↦ True) (Q := fun _ ↦ True) hstable hstable hstable
        (fun _ ↦ hbank) hstable (fun _ _ _ ↦ ⟨trivial, trivial⟩) (fun _ _ _ ↦ ⟨trivial, trivial⟩)
        (fun _ _ _ ↦ ⟨trivial, 0, trivial⟩)
        fun _ _ _ _ ↦ ⟨trivial, fun _ ↦ ⟨0, nofun, trivial⟩, fun _ ↦ trivial⟩) hs
    · refine sound_of_spec (loose_lawful.spec_writeReg hr ht hbank.opens (R := fun _ ↦ True)
        (Q := fun _ ↦ True) hstable hstable (fun he hd ↦ ?_) (fun _ _ _ ↦ ⟨trivial, trivial⟩)
        (fun _ _ _ ↦ trivial) fun _ _ _ _ ↦ ⟨trivial, trivial⟩) hs
      rw [BitVec.setWidth_setWidth_of_le v (by decide)]
      exact hk he hd
  | readReg r hr =>
    refine Machine.dwp_bind.mpr ?_
    by_cases ht : r.type = .phyR
    · exact sound_of_spec (spec_readPhy loose_lawful hr ht (P := fun _ ↦ True)
        (F := fun _ _ ↦ True) (G := fun _ _ ↦ True) (W := fun _ _ ↦ True) (V := fun _ ↦ True)
        (Y := fun _ _ ↦ True) (T := fun _ ↦ True) (U := fun _ _ ↦ True) (Q := fun _ _ ↦ True)
        hbank (fun _ ↦ hstable) (fun _ ↦ hstable) (fun _ ↦ hbank) hbank (fun _ ↦ hstable) hstable
        (fun _ ↦ hstable) (fun _ ↦ hstable) (fun _ _ _ ↦ ⟨trivial, trivial⟩)
        (fun _ _ _ _ ↦ ⟨trivial, trivial⟩) (fun _ _ _ _ ↦ ⟨trivial, 0, trivial⟩)
        (fun _ _ _ _ ↦ ⟨trivial, fun _ ↦ ⟨0, nofun, trivial⟩, fun _ ↦ trivial⟩)
        (fun _ _ _ ↦ ⟨trivial, trivial⟩) (fun _ _ _ _ ↦ ⟨trivial, trivial⟩)
        (fun _ _ _ ↦ ⟨trivial, trivial⟩) fun _ _ _ _ ↦ ⟨trivial, trivial⟩) hs
    · exact sound_of_spec (loose_lawful.spec_readReg hr ht hbank.opens (R := fun _ _ ↦ True)
        (Q := fun _ _ ↦ True) (fun _ ↦ hstable) (fun _ ↦ hstable)
        (fun _ _ _ ↦ ⟨trivial, trivial⟩) (fun _ _ _ _ ↦ trivial)
        fun _ _ _ _ _ ↦ ⟨trivial, trivial⟩) hs
  | bitfieldSet r m hr =>
    by_cases ht : r.type = .ethR
    · exact sound_of_spec (loose_lawful.spec_bitfieldSet hr ht hbank.opens (Q := fun _ ↦ True)
        hstable hk fun _ _ _ ↦ ⟨trivial, trivial⟩) hs
    · rw [Call.run, enc28j60BitfieldSet, if_neg ht]
      exact hs
  | bitfieldClear r m hr =>
    by_cases ht : r.type = .ethR
    · exact sound_of_spec (loose_lawful.spec_bitfieldClear hr ht hbank.opens (Q := fun _ ↦ True)
        hstable hk fun _ _ _ ↦ ⟨trivial, trivial⟩) hs
    · rw [Call.run, enc28j60BitfieldClear, if_neg ht]
      exact hs
  | writeBuf buf n =>
    exact sound_of_spec (spec_writeBuf loose_lawful (P := fun _ _ ↦ True) nofun
      (fun _ ↦ hstable) (fun _ _ ↦ trivial) fun _ _ _ _ ↦ ⟨trivial, trivial⟩) hs
  | readBuf buf n =>
    exact Machine.dwp_bind.mpr (sound_of_spec (spec_readBuf loose_lawful (P := fun _ _ ↦ True)
      (fun _ ↦ hstable) (fun _ _ ↦ trivial) fun _ _ _ _ ↦ ⟨trivial, trivial⟩) hs)

theorem Sound.event (h : Sound si d s) (e : Event) : Sound si d ((live si).interfere e s) :=
  ⟨h.1, h.2.imp_right e.bsel.trans⟩

section Reach

variable {reg : RegT} (hr : reg ∈ registerMap) (hb : reg.bank ≠ .common)
include hr hb

end Reach

end Enc28j60.BankCache
