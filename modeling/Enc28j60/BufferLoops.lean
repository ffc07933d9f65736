import Enc28j60.Interaction.Trace
import Enc28j60.DataSheet

namespace Enc28j60.BufferLoops

open Interaction RegisterMap SpiSlave Port LowLayer Transfers DataSheet

section Commands

/-- The operations of a buffer write up to its first `k` bytes. -/
def writeHead (buf : ℤ → Byte) (k : ℕ) : List Io :=
  [.csSelect, .sendShortCmd 0x7A] ++ (List.range k).map fun i ↦ .sendShortCmd (buf i)

/-- A buffer write of the first `n` bytes at `buf`. -/
def writeOps (buf : ℤ → Byte) (n : ℕ) : List Io := writeHead buf n ++ [.csDeselect]

def readHead (k : ℕ) : List Io :=
  [.csSelect, .sendShortCmd 0x3A] ++ List.replicate k (.sendShortCmd 0xFF)

/-- A buffer read of `n` bytes. -/
def readOps (n : ℕ) : List Io := readHead n ++ [.csDeselect]

variable {buf : ℤ → Byte} {k n : ℕ}

theorem writeHead_succ : writeHead buf (k + 1) = writeHead buf k ++ [.sendShortCmd (buf k)] := by
  simp only [writeHead, List.range_succ, List.map_append, List.map_cons, List.map_nil,
    List.append_assoc]

theorem readHead_succ : readHead (k + 1) = readHead k ++ [.sendShortCmd 0xFF] := by
  simp only [readHead, List.replicate_succ', List.append_assoc]

theorem writeHead_mono (h : k ≤ n) : writeHead buf k <+: writeHead buf n := by
  obtain ⟨j, rfl⟩ := Nat.exists_eq_add_of_le h
  clear h
  induction j with
  | zero => exact List.prefix_rfl
  | succ j ih =>
    rw [← Nat.add_assoc, writeHead_succ]
    exact ih.trans (List.prefix_append _ _)

theorem readHead_mono (h : k ≤ n) : readHead k <+: readHead n := by
  obtain ⟨j, rfl⟩ := Nat.exists_eq_add_of_le h
  clear h
  induction j with
  | zero => exact List.prefix_rfl
  | succ j ih =>
    rw [← Nat.add_assoc, readHead_succ]
    exact ih.trans (List.prefix_append _ _)

end Commands

variable {C E : Type} {D : Device C} {ev : E → C → C} {G : Io → Bus C × List Io → Prop} {tot : Prop}
  {d : Enc28j60T} {s : Bus C} {l : List Io}

/-- The chip on the bus, with a record of what the driver did. -/
abbrev watchedBus (D : Device C) (ev : E → C → C) : Machine Io Io.Resp (Bus C × List Io) E :=
  (Port.machine D ev).traced

/-- Up to 32767 bytes the loop sends one after the other; beyond, nothing is known but that it
does not end. -/
theorem does_writeBuf {buf : ℤ → Byte} {n : Word} (hn : tot → n.toNat ≤ 32767)
    (hG : ∀ op u s, (n.toNat ≤ 32767 → u ++ [op] <+: writeOps buf n.toNat) → G op (s, l ++ u)) :
    (watchedBus D ev).dwp G tot (enc28j60WriteBuf buf n) (fun _ d' s' ↦ n.toNat ≤ 32767 ∧ d' = d ∧
      s'.2 = l ++ writeOps buf n.toNat) d (s, l) := by
  have hhead (k : ℕ) (hk : k ≤ n.toNat) : writeHead buf k <+: writeOps buf n.toNat :=
    (writeHead_mono hk).trans (List.prefix_append _ _)
  have hstart (s : Bus C) : G .csSelect (s, l) := by
    rw [← List.append_nil l]
    exact hG _ _ _ fun _ ↦ (List.prefix_append [Io.csSelect] [.sendShortCmd 0x7A]).trans
      (hhead 0 (Nat.zero_le _))
  have hcmd (s : Bus C) : G (.sendShortCmd 0x7A) (s, l ++ [.csSelect]) :=
    hG _ _ _ fun _ ↦ hhead 0 (Nat.zero_le _)
  refine Machine.dwp_bind.mpr (Machine.dwp_traced_perform hstart fun _ s ↦ ?_)
  refine Machine.dwp_bind.mpr (Machine.dwp_traced_perform hcmd fun _ s ↦ ?_)
  rw [List.append_assoc]
  -- the counter is the number of bytes sent for as long as that number fits it
  refine Machine.dwp_bind.mpr (Machine.dwp_iterate (fun m i d' s ↦ d' = d ∧ ∃ k u,
    i = BitVec.ofNat 16 k ∧ s.2 = l ++ u ∧
      (n.toNat ≤ 32767 → k ≤ n.toNat ∧ m = n.toNat - k ∧ u = writeHead buf k)) n.toNat
    ⟨rfl, 0, _, rfl, rfl, fun _ ↦ ⟨Nat.zero_le _, rfl, rfl⟩⟩ ?_)
  intro m i d' s hJ
  obtain ⟨rfl, k, u, rfl, hs, hk⟩ := hJ
  obtain ⟨s, l'⟩ := s
  obtain rfl : l' = l ++ u := hs
  have hint : n.toNat ≤ 32767 → (BitVec.ofNat 16 k).toInt = k := by
    intro hfit
    have hk' := (hk hfit).1
    rw [BitVec.toInt_eq_toNat_of_lt]
    · simp only [BitVec.toNat_ofNat]
      omega
    · simp only [BitVec.toNat_ofNat]
      omega
  refine Machine.dwp_ite (fun hi ↦ ?_) fun hi ↦ Machine.dwp_pure.mpr ⟨nofun, fun _ ↦ ?_⟩
  · have hsend (hfit : n.toNat ≤ 32767) : k + 1 ≤ n.toNat ∧
        u ++ [.sendShortCmd (buf (BitVec.ofNat 16 k).toInt)] = writeHead buf (k + 1) := by
      obtain ⟨-, -, rfl⟩ := hk hfit
      rw [hint hfit] at hi ⊢
      exact ⟨by omega, writeHead_succ.symm⟩
    refine Machine.dwp_bind.mpr (Machine.dwp_traced_perform (fun s ↦ hG _ _ _ fun hfit ↦ ?_)
      fun _ s ↦ Machine.dwp_pure.mpr ⟨fun _ ↦ ⟨n.toNat - (k + 1), fun ht ↦ ?_, rfl, k + 1, _, ?_,
        List.append_assoc _ _ _, fun hfit ↦ ⟨(hsend hfit).1, rfl, (hsend hfit).2⟩⟩, nofun⟩)
    · rw [(hsend hfit).2]
      exact hhead _ (hsend hfit).1
    · have hkm := (hk (hn ht)).2.1
      have hlt := (hsend (hn ht)).1
      omega
    · rw [BitVec.ofNat_add]
      rfl
  · have hfit : n.toNat ≤ 32767 := by
      have hmax := BitVec.toInt_lt (x := BitVec.ofNat 16 k)
      omega
    obtain ⟨hle, -, rfl⟩ := hk hfit
    rw [hint hfit] at hi
    obtain rfl : k = n.toNat := by omega
    refine Machine.dwp_traced_perform (fun s ↦ hG _ _ _ fun _ ↦ List.prefix_rfl) fun _ s ↦ ?_
    exact ⟨hfit, rfl, List.append_assoc _ _ _⟩

theorem does_readBuf {buf : ℕ → Byte} {n : Word}
    (hG : ∀ op u s, u ++ [op] <+: readOps n.toNat → G op (s, l ++ u)) :
    (watchedBus D ev).dwp G tot (enc28j60ReadBuf buf n) (fun r d' s' ↦ d' = d ∧
      (∃ bs : List Byte, bs.length = n.toNat ∧ r = overlay bs buf) ∧ s'.2 = l ++ readOps n.toNat)
      d (s, l) := by
  have hhead (k : ℕ) (hk : k ≤ n.toNat) : readHead k <+: readOps n.toNat :=
    (readHead_mono hk).trans (List.prefix_append _ _)
  have hstart (s : Bus C) : G .csSelect (s, l) := by
    rw [← List.append_nil l]
    exact hG _ _ _ ((List.prefix_append [Io.csSelect] [.sendShortCmd 0x3A]).trans
      (hhead 0 (Nat.zero_le _)))
  have hcmd (s : Bus C) : G (.sendShortCmd 0x3A) (s, l ++ [.csSelect]) :=
    hG _ _ _ (hhead 0 (Nat.zero_le _))
  refine Machine.dwp_bind.mpr (Machine.dwp_traced_perform hstart fun _ s ↦ ?_)
  refine Machine.dwp_bind.mpr (Machine.dwp_traced_perform hcmd fun _ s ↦ ?_)
  rw [List.append_assoc]
  refine Machine.dwp_bind.mpr (Machine.dwp_iterate (fun m r d' s ↦ d' = d ∧ ∃ bs : List Byte,
    r = (BitVec.ofNat 16 bs.length, overlay bs buf) ∧ bs.length ≤ n.toNat ∧
      m = n.toNat - bs.length ∧ s.2 = l ++ readHead bs.length) n.toNat
    ⟨rfl, [], by rw [overlay_nil]; rfl, Nat.zero_le _, rfl, rfl⟩ ?_)
  intro m r d' s hJ
  obtain ⟨rfl, bs, rfl, hl, rfl, hs⟩ := hJ
  obtain ⟨s, l'⟩ := s
  obtain rfl : l' = l ++ readHead bs.length := hs
  have hnat : (BitVec.ofNat 16 bs.length).toNat = bs.length := by
    simp only [BitVec.toNat_ofNat]
    omega
  refine Machine.dwp_ite (fun hi ↦ ?_) fun hi ↦ Machine.dwp_pure.mpr ⟨nofun, fun _ ↦ ?_⟩
  · have hlt : bs.length < n.toNat := by
      rw [BitVec.lt_def, hnat] at hi
      exact hi
    refine Machine.dwp_bind.mpr (Machine.dwp_traced_perform (fun s ↦ hG _ _ _ ?_) fun (b : Byte) s ↦
      Machine.dwp_pure.mpr ⟨fun _ ↦ ⟨n.toNat - (bs.length + 1), fun _ ↦ by omega, rfl, bs ++ [b], ?_,
        ?_, ?_, ?_⟩, nofun⟩)
    · rw [← readHead_succ]
      exact hhead _ hlt
    · rw [overlay_append, hnat, List.length_append, BitVec.ofNat_add]
      rfl
    · simp only [List.length_append, List.length_singleton]
      omega
    · simp only [List.length_append, List.length_singleton]
    · simp only [List.length_append, List.length_singleton, readHead_succ, List.append_assoc]
  · have hln : bs.length = n.toNat := by
      rw [BitVec.lt_def, hnat] at hi
      omega
    rw [hln]
    refine Machine.dwp_bind.mpr (Machine.dwp_traced_perform
      (fun s ↦ hG _ _ _ List.prefix_rfl) fun _ s ↦ Machine.dwp_pure.mpr ?_)
    exact ⟨rfl, ⟨bs, hln, rfl⟩, List.append_assoc _ _ _⟩

section Exact

variable (D : Device C) (ev : E → C → C) (n : Word) (d : Enc28j60T) (s : Bus C) (σ : ℕ → List E)

variable {D ev n d s σ}

end Exact

end Enc28j60.BufferLoops
