import Enc28j60.OnesComplement
import Enc28j60.RegisterMap

namespace Enc28j60.Lwip

open RegisterMap OnesComplement

section Functions

def foldU32 (u : BitVec 32) : BitVec 32 := (u >>> 16) + (u &&& 0x0000ffff)

def swapBytesInWord (w : BitVec 32) : BitVec 32 := (w &&& 0xff) <<< 8 ||| (w &&& 0xff00) >>> 8

/-- The loop of `lwip_standard_chksum` over the words, and what it leaves over. -/
def sumWords : List Byte → BitVec 32 → BitVec 32 × List Byte
  | b₀ :: b₁ :: data, sum => sumWords data (sum + (b₁ ++ b₀ : Word).setWidth 32)
  | data, sum => (sum, data)

/-- `odd` is about the address of the data. -/
def lwipStandardChksum (odd : Bool) (data : List Byte) : Word :=
  let high : Byte := if odd then data.headD 0 else 0
  let data := if odd then data.tail else data
  let (sum, rest) := sumWords data 0
  let t : Word := high ++ rest.headD 0
  let sum := foldU32 (foldU32 (sum + t.setWidth 32))
  let sum := if odd then swapBytesInWord sum else sum
  sum.setWidth 16

def inetChksum (odd : Bool) (data : List Byte) : Word := ~~~lwipStandardChksum odd data

/-- The loop of `inet_chksum_pbuf` over the payloads of a chain. -/
def inetChksumLoop : List (Bool × List Byte) → BitVec 32 → Bool → BitVec 32 × Bool
  | [], acc, swapped => (acc, swapped)
  | (odd, data) :: q, acc, swapped =>
    let acc := foldU32 (acc + (lwipStandardChksum odd data).setWidth 32)
    if data.length % 2 ≠ 0 then inetChksumLoop q (swapBytesInWord acc) (!swapped)
    else inetChksumLoop q acc swapped

def inetChksumPbuf (q : List (Bool × List Byte)) : Word :=
  let (acc, swapped) := inetChksumLoop q 0 false
  let acc := if swapped then swapBytesInWord acc else acc
  ~~~acc.setWidth 16

end Functions

variable {odd : Bool} {data rest : List Byte} {sum u : BitVec 32}

section Sums

/-- The number that the bytes make, the first one lowest. -/
def value (data : List Byte) : ℕ := Nat.ofDigits 256 (data.map BitVec.toNat)

@[simp] theorem value_nil : value [] = 0 := rfl

@[simp] theorem value_cons (b : Byte) : value (b :: data) = b.toNat + 256 * value data :=
  Nat.ofDigits_cons

theorem value_append : value (data ++ rest) = value data + 256 ^ data.length * value rest := by
  simp [value, Nat.ofDigits_append]

theorem toNat_foldU32 : (foldU32 u).toNat = u.toNat / 2 ^ 16 + u.toNat % 2 ^ 16 := by
  have hmask : (u &&& 0x0000ffff).toNat = u.toNat % 2 ^ 16 := by
    rw [BitVec.toNat_and]
    exact Nat.and_two_pow_sub_one_eq_mod u.toNat 16
  have hlt := u.isLt
  rw [foldU32, BitVec.toNat_add, hmask, BitVec.toNat_ushiftRight, Nat.shiftRight_eq_div_pow]
  omega

theorem toNat_swapBytesInWord (h : u.toNat < 2 ^ 16) :
    (swapBytesInWord u).toNat = u.toNat % 256 * 256 + u.toNat / 256 := by
  have hapart : (u &&& 0xff) <<< 8 &&& (u &&& 0xff00) >>> 8 = 0 := by
    ext i hi
    interval_cases i <;> simp
  have hlow : (u &&& 0xff).toNat = u.toNat % 256 := by
    rw [BitVec.toNat_and]
    exact Nat.and_two_pow_sub_one_eq_mod u.toNat 8
  have hhigh : (u &&& 0xff00) >>> 8 = u >>> 8 := by
    have hzero (j : ℕ) (hj : 16 ≤ j) : u.getLsbD j = false :=
      Nat.testBit_lt_two_pow (h.trans_le (Nat.pow_le_pow_right (by decide) hj))
    ext i hi
    have hbit := hzero (8 + i)
    interval_cases i <;> simp_all
  rw [swapBytesInWord, ← BitVec.add_eq_or_of_and_eq_zero _ _ hapart, hhigh, BitVec.toNat_add,
    BitVec.toNat_shiftLeft, hlow, BitVec.toNat_ushiftRight, Nat.shiftLeft_eq, Nat.shiftRight_eq_div_pow]
  omega

theorem same_swapBytesInWord (h : u.toNat < 2 ^ 16) :
    Same 16 (swapBytesInWord u).toNat (256 * u.toNat) ∧ (swapBytesInWord u).toNat < 2 ^ 16 := by
  rw [toNat_swapBytesInWord h]
  refine ⟨?_, by omega⟩
  have hsplit : 256 * u.toNat = u.toNat % 256 * 256 + 2 ^ 16 * (u.toNat / 256) := by omega
  rw [hsplit]
  exact (Same.refl 16 _).add (same_shift 16 _).symm

theorem toNat_word (b₁ b₀ : Byte) : (b₁ ++ b₀ : Word).toNat = b₀.toNat + 256 * b₁.toNat := by
  have hlt := b₀.isLt
  rw [BitVec.toNat_append, ← Nat.shiftLeft_add_eq_or_of_lt hlt, Nat.shiftLeft_eq]
  omega

theorem sumWords_spec (data : List Byte) (sum : BitVec 32) (h : sum.toNat + 2 ^ 16 * data.length < 2 ^ 32) :
    Same 16 ((sumWords data sum).1.toNat + value (sumWords data sum).2) (sum.toNat + value data) ∧
      (sumWords data sum).2.length ≤ 1 ∧ (sumWords data sum).1.toNat ≤ sum.toNat + 2 ^ 16 * data.length := by
  induction data, sum using sumWords.induct with
  | case1 b₀ b₁ data sum ih =>
    have hword := toNat_word b₁ b₀
    have hlt := (b₁ ++ b₀ : Word).isLt
    simp only [List.length_cons] at h
    have hsum : (sum + (b₁ ++ b₀ : Word).setWidth 32).toNat = sum.toNat + (b₁ ++ b₀ : Word).toNat := by
      rw [BitVec.toNat_add, BitVec.toNat_setWidth]
      omega
    obtain ⟨hsame, hone, hle⟩ := ih (by rw [hsum]; omega)
    rw [sumWords]
    refine ⟨hsame.trans ?_, hone, ?_⟩
    · have hbytes : sum.toNat + value (b₀ :: b₁ :: data) =
          sum.toNat + (b₁ ++ b₀ : Word).toNat + 2 ^ 16 * value data := by
        rw [value_cons, value_cons, hword]
        omega
      rw [hbytes, hsum]
      exact (Same.refl 16 _).add (same_shift 16 _).symm
    · rw [hsum] at hle
      simp only [List.length_cons]
      omega
  | case2 data sum hshort =>
    rw [sumWords]
    · refine ⟨Same.refl 16 _, ?_, Nat.le_add_right _ _⟩
      match data with
      | [] => exact Nat.zero_le _
      | [b] => exact Nat.le_refl _
      | b₀ :: b₁ :: data => exact absurd rfl (hshort b₀ b₁ data)
    · exact hshort

theorem value_headD (h : rest.length ≤ 1) : value rest = (rest.headD 0).toNat := by
  match rest with
  | [] => rfl
  | [b] => simp
  | b₀ :: b₁ :: l => simp at h

/-- The sum is that of the bytes, wherever they are. -/
theorem lwipStandardChksum_same (h : data.length < 2 ^ 16) :
    Same 16 (lwipStandardChksum odd data).toNat (value data) := by
  have hfolded (u : BitVec 32) : Same 16 (foldU32 (foldU32 u)).toNat u.toNat ∧ (foldU32 (foldU32 u)).toNat < 2 ^ 16 := by
    have hu := u.isLt
    rw [toNat_foldU32, toNat_foldU32]
    refine ⟨(same_fold 16 _).trans (same_fold 16 _), by omega⟩
  have htotal (high : Byte) (data : List Byte) (h : data.length < 2 ^ 16) :
      Same 16 ((sumWords data 0).1 + (high ++ (sumWords data 0).2.headD 0 : Word).setWidth 32).toNat
        (256 * high.toNat + value data) := by
    obtain ⟨hsame, hone, hle⟩ := sumWords_spec data 0 (by
      change 0 + _ < _
      omega)
    have hword := toNat_word high ((sumWords data 0).2.headD 0)
    have hlt := (high ++ (sumWords data 0).2.headD 0 : Word).isLt
    change Same 16 _ (0 + _) at hsame
    change _ ≤ 0 + _ at hle
    rw [value_headD hone] at hsame
    have hsum : ((sumWords data 0).1 + (high ++ (sumWords data 0).2.headD 0 : Word).setWidth 32).toNat =
        256 * high.toNat + ((sumWords data 0).1.toNat + ((sumWords data 0).2.headD 0).toNat) := by
      rw [BitVec.toNat_add, BitVec.toNat_setWidth]
      omega
    rw [hsum]
    refine (Same.refl 16 _).add (hsame.trans ?_)
    rw [Nat.zero_add]
    exact Same.refl 16 _
  cases odd with
  | false =>
    have h₁ := htotal 0 data h
    obtain ⟨h₂, hlt⟩ := hfolded ((sumWords data 0).1 + ((0 : Byte) ++ (sumWords data 0).2.headD 0 : Word).setWidth 32)
    simp only [lwipStandardChksum, Bool.false_eq_true, if_false, BitVec.toNat_setWidth, Nat.mod_eq_of_lt hlt]
    refine h₂.trans (h₁.trans ?_)
    change Same 16 (256 * 0 + _) _
    rw [Nat.mul_zero, Nat.zero_add]
    exact Same.refl 16 _
  | true =>
    have h₁ := htotal (data.headD 0) data.tail (by rw [List.length_tail]; omega)
    obtain ⟨h₂, hlt⟩ := hfolded ((sumWords data.tail 0).1 +
      (data.headD 0 ++ (sumWords data.tail 0).2.headD 0 : Word).setWidth 32)
    obtain ⟨h₃, hlt'⟩ := same_swapBytesInWord hlt
    simp only [lwipStandardChksum, if_true, BitVec.toNat_setWidth, Nat.mod_eq_of_lt hlt']
    refine h₃.trans (((h₂.trans h₁).mul_left 256).trans ?_)
    -- the first byte has come first, in place of last, and both swaps make up for it
    cases data with
    | nil => exact Same.refl 16 0
    | cons b data =>
      have hbytes : 256 * (256 * b.toNat + value data) = 2 ^ 16 * b.toNat + 256 * value data := by omega
      simp only [List.headD_cons, List.tail_cons, value_cons, hbytes]
      exact (same_shift 16 _).add (Same.refl 16 _)

/-- A sum does not depend on the address of the data. -/
theorem lwipStandardChksum_eq (h : data.length < 2 ^ 16) :
    lwipStandardChksum odd data = lwipStandardChksum false data :=
  BitVec.eq_of_toNat_eq (((lwipStandardChksum_same h).trans (lwipStandardChksum_same h).symm).eq
    (BitVec.isLt _) (BitVec.isLt _))

end Sums

section Chains

/-- The bytes of the chain. -/
def joined (q : List (Bool × List Byte)) : List Byte := q.flatMap Prod.snd

theorem same_pow (k n : ℕ) : Same 16 (256 ^ k * n) (256 ^ (k % 2) * n) := by
  induction k using Nat.twoStepInduction with
  | zero => exact Same.refl 16 _
  | one => exact Same.refl 16 _
  | more k ih _ =>
    have hpow : 256 ^ (k + 2) * n = 2 ^ 16 * (256 ^ k * n) := by ring
    rw [hpow, Nat.add_mod_right]
    exact (same_shift 16 _).trans ih

/-- The sum `acc` of the bytes so far has its bytes swapped while their number is odd. -/
theorem inetChksumLoop_same {q : List (Bool × List Byte)} (hq : ∀ d ∈ q, d.2.length < 2 ^ 16) (data : List Byte)
    (acc : BitVec 32) (swapped : Bool) (hacc : acc.toNat < 2 ^ 16) (hsame : Same 16 (256 ^ data.length * acc.toNat) (value data))
    (hlen : swapped = (data.length % 2 == 1)) :
    (inetChksumLoop q acc swapped).1.toNat < 2 ^ 16 ∧
      Same 16 (256 ^ (data ++ joined q).length * (inetChksumLoop q acc swapped).1.toNat) (value (data ++ joined q)) ∧
      (inetChksumLoop q acc swapped).2 = ((data ++ joined q).length % 2 == 1) := by
  induction q generalizing data acc swapped with
  | nil =>
    rw [joined, List.flatMap_nil, List.append_nil]
    exact ⟨hacc, hsame, hlen⟩
  | cons d q ih =>
    obtain ⟨odd, d⟩ := d
    simp only [List.forall_mem_cons] at hq
    have hsum : (acc + (lwipStandardChksum odd d).setWidth 32).toNat = acc.toNat + (lwipStandardChksum odd d).toNat := by
      have hlt := (lwipStandardChksum odd d).isLt
      rw [BitVec.toNat_add, BitVec.toNat_setWidth]
      omega
    let acc₁ := foldU32 (acc + (lwipStandardChksum odd d).setWidth 32)
    have hacc₁ : acc₁.toNat < 2 ^ 16 := by
      have hlt := (lwipStandardChksum odd d).isLt
      rw [toNat_foldU32, hsum]
      omega
    have hnext : Same 16 (256 ^ data.length * acc₁.toNat) (value (data ++ d)) := by
      rw [value_append, toNat_foldU32]
      refine ((same_fold 16 _).mul_left _).trans ?_
      rw [hsum, Nat.mul_add]
      exact hsame.add ((lwipStandardChksum_same hq.1).mul_left _)
    have happ : data ++ joined ((odd, d) :: q) = data ++ d ++ joined q := by simp [joined]
    simp only [inetChksumLoop]
    rw [happ]
    by_cases hodd : d.length % 2 = 0
    · rw [if_neg (fun h ↦ h hodd)]
      refine ih hq.2 _ _ _ hacc₁ ?_ ?_
      · refine Same.trans ?_ hnext
        rw [List.length_append, Nat.pow_add, Nat.mul_assoc]
        refine (((same_pow d.length acc₁.toNat).trans ?_)).mul_left _
        rw [hodd, Nat.pow_zero, Nat.one_mul]
        exact Same.refl 16 _
      · rw [hlen, List.length_append]
        have hparity : (data.length + d.length) % 2 = data.length % 2 := by omega
        rw [hparity]
    · rw [if_pos hodd]
      obtain ⟨hswap, hlt⟩ := same_swapBytesInWord hacc₁
      refine ih hq.2 _ _ _ hlt ?_ ?_
      · refine Same.trans ?_ hnext
        rw [List.length_append, Nat.pow_add, Nat.mul_assoc]
        refine ((same_pow d.length _).trans ?_).mul_left _
        have hone : d.length % 2 = 1 := by omega
        have htwice : 2 ^ 16 * acc₁.toNat = 256 * (256 * acc₁.toNat) := by omega
        rw [hone, Nat.pow_one]
        exact (hswap.mul_left 256).trans (htwice ▸ same_shift 16 _)
      · rw [hlen, List.length_append]
        rcases Nat.mod_two_eq_zero_or_one data.length with he | he
        · have hparity : (data.length + d.length) % 2 = 1 := by omega
          rw [he, hparity]
          rfl
        · have hparity : (data.length + d.length) % 2 = 0 := by omega
          rw [he, hparity]
          rfl

/-- The checksum of a chain is that of its bytes, however they are divided up, at whatever addresses. -/
theorem inetChksumPbuf_eq (q : List (Bool × List Byte)) (hq : ∀ d ∈ q, d.2.length < 2 ^ 16)
    (h : (joined q).length < 2 ^ 16) (odd : Bool) : inetChksumPbuf q = inetChksum odd (joined q) := by
  obtain ⟨hlt, hsame, hodd⟩ := inetChksumLoop_same hq [] 0 false
    (by decide) (Same.refl 16 0) rfl
  rw [List.nil_append] at hsame hodd
  have hstd : Same 16 (lwipStandardChksum odd (joined q)).toNat _ := lwipStandardChksum_same h
  unfold inetChksumPbuf inetChksum
  generalize inetChksumLoop q 0 false = r at hlt hsame hodd
  obtain ⟨acc, swapped⟩ := r
  refine congrArg (~~~·) (BitVec.eq_of_toNat_eq (Same.eq (w := 16) ?_ (BitVec.isLt _) (BitVec.isLt _)))
  refine Same.trans ?_ hstd.symm
  have hpow := (same_pow (joined q).length acc.toNat).symm.trans hsame
  change swapped = _ at hodd
  change acc.toNat < 2 ^ 16 at hlt
  cases swapped with
  | false =>
    have hzero : (joined q).length % 2 = 0 := by
      have hne := beq_eq_false_iff_ne.mp hodd.symm
      omega
    rw [hzero, Nat.pow_zero, Nat.one_mul] at hpow
    change Same 16 (acc.setWidth 16).toNat _
    rwa [BitVec.toNat_setWidth, Nat.mod_eq_of_lt hlt]
  | true =>
    have hone : (joined q).length % 2 = 1 := beq_iff_eq.mp hodd.symm
    rw [hone, Nat.pow_one] at hpow
    obtain ⟨hswap, hlt'⟩ := same_swapBytesInWord hlt
    change Same 16 ((swapBytesInWord acc).setWidth 16).toNat _
    rw [BitVec.toNat_setWidth, Nat.mod_eq_of_lt hlt']
    exact hswap.trans hpow

end Chains

end Enc28j60.Lwip
