import Enc28j60.RegisterMap

namespace Enc28j60.Lwip

open RegisterMap

/-- `err_t`, as far as it is returned here. -/
inductive ErrT where
  | ok
  | mem
  | buf
  | rte
  | arg
  deriving DecidableEq

inductive PbufType where
  | ram
  | rom
  | ref
  | pool
  deriving DecidableEq

/-- The enumeration value, cast to a byte. -/
def PbufType.toByte : PbufType → Byte
  | .ram => 0x80
  | .rom => 0x01
  | .ref => 0x41
  | .pool => 0x82

def pbufTypeAllocSrcMask : Byte := 0x0F
def pbufTypeAllocSrcMaskStdHeap : Byte := 0x00
def pbufTypeAllocSrcMaskStdMempPbuf : Byte := 0x01
def pbufTypeAllocSrcMaskStdMempPbufPool : Byte := 0x02

def pbufPoolBufsize : Word := 256
def pbufPoolSize : ℕ := 1
def pbufRaw : Word := 0
def netifNoIndex : Byte := 0

/-- `LWIP_MEM_ALIGN_SIZE`, with a `MEM_ALIGNMENT` of 4. -/
def lwipMemAlignSize (size : Word) : Word := (size + 3) &&& ~~~3

def lwipMin (x y : Word) : Word := if x < y then x else y

/-- The address of a `struct pbuf`. -/
abbrev Ptr := ℕ

/-- `struct pbuf` but for `next`: a chain is the list of its addresses. The payload is an offset in
the memory behind the structure. -/
structure Pbuf where
  store : ℕ → Byte
  payload : ℕ
  totLen : Word
  len : Word
  typeInternal : Byte
  flags : Byte
  ref : Byte
  ifIdx : Byte

/-- What is free in the two pools, what is in use in the heap, and the buffers. -/
structure Memory where
  mempPbufPool : List Ptr
  mempPbuf : List Ptr
  heap : List Ptr
  pbuf : Ptr → Pbuf

variable {m : Memory} {p q tab : List Ptr} {x y : Ptr} {b : Pbuf}

section Pools

def Memory.set (x : Ptr) (b : Pbuf) (m : Memory) : Memory := { m with pbuf := Function.update m.pbuf x b }

/-- The end of the pass of `pbuf_free` for a buffer that nothing refers to. -/
def release (x : Ptr) (m : Memory) : Memory :=
  let allocSrc := (m.pbuf x).typeInternal &&& pbufTypeAllocSrcMask
  if allocSrc = pbufTypeAllocSrcMaskStdMempPbufPool then { m with mempPbufPool := x :: m.mempPbufPool }
  else if allocSrc = pbufTypeAllocSrcMaskStdMempPbuf then { m with mempPbuf := x :: m.mempPbuf }
  else if allocSrc = pbufTypeAllocSrcMaskStdHeap then { m with heap := m.heap.erase x }
  else m

/-- The result is the number of buffers that have become free. -/
def pbufFree : List Ptr → Memory → Byte × Memory
  | [], m => (0, m)
  | x :: next, m =>
    let ref := (m.pbuf x).ref - 1
    let m := m.set x { m.pbuf x with ref }
    if ref = 0 then
      let (count, m) := pbufFree next (release x m)
      (count + 1, m)
    else (0, m)

def pbufInitAllocedPbuf (x : Ptr) (payload : ℕ) (totLen len : Word) (type : PbufType) (flags : Byte)
    (m : Memory) : Memory :=
  m.set x { m.pbuf x with
    payload, totLen, len, flags, typeInternal := type.toByte, ref := 1, ifIdx := netifNoIndex }

/-- The loop of `pbuf_alloc` for a buffer of the pool: `p` is the chain so far, and every round takes
the first element of the pool. -/
def pbufAllocLoop : List Ptr → Word → Word → List Ptr → Memory → Option (List Ptr) × Memory
  | [], _, _, p, m => (none, (pbufFree p { m with mempPbufPool := [] }).2)
  | x :: tab, offset, remLen, p, m =>
    let qlen := lwipMin remLen (lwipMemAlignSize pbufPoolBufsize - lwipMemAlignSize offset)
    let m := pbufInitAllocedPbuf x (lwipMemAlignSize offset).toNat remLen qlen .pool 0
      { m with mempPbufPool := tab }
    if 0 < remLen - qlen then pbufAllocLoop tab 0 (remLen - qlen) (p ++ [x]) m else (some (p ++ [x]), m)

/-- `pbuf_alloc` with the type `PBUF_POOL`. -/
def pbufAlloc (layer length : Word) (m : Memory) : Option (List Ptr) × Memory :=
  pbufAllocLoop m.mempPbufPool layer length [] m

/-- `n` bytes are copied to the payload of the buffer. -/
def Pbuf.memcpy (dataptr : ℕ → Byte) (n : ℕ) (b : Pbuf) : Pbuf :=
  { b with store := fun i ↦ if b.payload ≤ i ∧ i < b.payload + n then dataptr (i - b.payload) else b.store i }

/-- The loop of `pbuf_take`; the assertion that the chain goes on holds as long as its total length
is right. -/
def pbufTakeLoop (dataptr : ℕ → Byte) : List Ptr → ℕ → ℕ → Memory → Memory
  | [], _, _, m => m
  | x :: next, totalCopyLen, copiedTotal, m =>
    if totalCopyLen = 0 then m
    else
      let bufCopyLen := min totalCopyLen (m.pbuf x).len.toNat
      pbufTakeLoop dataptr next (totalCopyLen - bufCopyLen) (copiedTotal + bufCopyLen)
        (m.set x ((m.pbuf x).memcpy (fun i ↦ dataptr (copiedTotal + i)) bufCopyLen))

def pbufTake (buf : List Ptr) (dataptr : ℕ → Byte) (len : Word) (m : Memory) : ErrT × Memory :=
  match buf with
  | [] => (.arg, m)
  | x :: _ =>
    if (m.pbuf x).totLen < len then (.mem, m)
    else (.ok, pbufTakeLoop dataptr buf len.toNat 0 m)

end Pools

section Chains

/-- The bytes of a chain. -/
def payloads (m : Memory) (p : List Ptr) : List Byte :=
  p.flatMap fun x ↦ (List.range (m.pbuf x).len.toNat).map fun i ↦ (m.pbuf x).store ((m.pbuf x).payload + i)

/-- The chain holds `n` bytes, and every total length is that of the rest of the chain. -/
def Chained (m : Memory) : List Ptr → ℕ → Prop
  | [], n => n = 0
  | x :: next, n => (m.pbuf x).totLen.toNat = n ∧ (m.pbuf x).len.toNat ≤ n ∧
      Chained m next (n - (m.pbuf x).len.toNat)

@[simp] theorem set_pbuf_self : (m.set x b).pbuf x = b := Function.update_self ..

theorem set_pbuf_of_ne (h : y ≠ x) : (m.set x b).pbuf y = m.pbuf y := Function.update_of_ne h ..

@[simp] theorem set_mempPbufPool : (m.set x b).mempPbufPool = m.mempPbufPool := rfl

theorem Chained.sum {n : ℕ} (h : Chained m p n) : (p.map fun x ↦ (m.pbuf x).len.toNat).sum = n := by
  induction p generalizing n with
  | nil => exact h.symm
  | cons x next ih =>
    obtain ⟨-, hle, hnext⟩ := h
    have hsum := ih hnext
    simp only [List.map_cons, List.sum_cons, hsum]
    omega

theorem Chained.zero (h : Chained m p 0) : ∀ x ∈ p, (m.pbuf x).len.toNat = 0 := by
  induction p with
  | nil => simp
  | cons x next ih =>
    obtain ⟨-, hle, hnext⟩ := h
    have hlen : (m.pbuf x).len.toNat = 0 := Nat.le_zero.mp hle
    rw [hlen] at hnext
    exact List.forall_mem_cons.mpr ⟨hlen, ih hnext⟩

theorem Chained.congr {m' : Memory} {n : ℕ} (h : Chained m p n)
    (hp : ∀ x ∈ p, (m'.pbuf x).totLen = (m.pbuf x).totLen ∧ (m'.pbuf x).len = (m.pbuf x).len) :
    Chained m' p n := by
  induction p generalizing n with
  | nil => exact h
  | cons x next ih =>
    simp only [List.forall_mem_cons] at hp
    obtain ⟨⟨ht, hl⟩, hnext⟩ := hp
    simp only [Chained, ht, hl] at h ⊢
    exact ⟨h.1, h.2.1, ih h.2.2 hnext⟩

theorem payloads_congr {m' : Memory} (h : ∀ x ∈ p, m'.pbuf x = m.pbuf x) : payloads m' p = payloads m p := by
  induction p with
  | nil => rfl
  | cons x next ih =>
    simp only [List.forall_mem_cons] at h
    have hnext := ih h.2
    simp only [payloads, List.flatMap_cons, h.1] at hnext ⊢
    rw [hnext]

end Chains

section Allocation

theorem toNat_lwipMin (v w : Word) : (lwipMin v w).toNat = min v.toNat w.toNat := by
  unfold lwipMin
  simp only [BitVec.lt_def]
  split <;> omega

/-- The buffers are as the pool hands them out. -/
def Fresh (m : Memory) (p : List Ptr) : Prop :=
  ∀ x ∈ p, (m.pbuf x).ref = 1 ∧ (m.pbuf x).typeInternal = PbufType.pool.toByte

theorem Fresh.congr {m' : Memory} (h : Fresh m p) (hp : ∀ x ∈ p, m'.pbuf x = m.pbuf x) : Fresh m' p := by
  intro x hx
  rw [hp x hx]
  exact h x hx

theorem release_pool (h : (m.pbuf x).typeInternal = PbufType.pool.toByte) :
    release x m = { m with mempPbufPool := x :: m.mempPbufPool } := by
  simp only [release, h]
  rfl

/-- A chain that nothing else refers to goes back to the pool. -/
theorem pbufFree_fresh (h : Fresh m p) (hp : p.Nodup) :
    (pbufFree p m).2.mempPbufPool = p.reverse ++ m.mempPbufPool := by
  induction p generalizing m with
  | nil => rfl
  | cons x next ih =>
    obtain ⟨href, htype⟩ := h x List.mem_cons_self
    obtain ⟨hx, hnext⟩ := List.nodup_cons.mp hp
    have hzero : (m.pbuf x).ref - 1 = 0 := by rw [href]; rfl
    simp only [pbufFree, hzero, if_true]
    rw [release_pool (by rw [set_pbuf_self, htype])]
    refine (ih (Fresh.congr (fun y hy ↦ h y (List.mem_cons_of_mem _ hy)) fun y hy ↦ ?_) hnext).trans ?_
    · exact set_pbuf_of_ne fun he ↦ hx (he ▸ hy)
    · simp

theorem pbufAllocLoop_cons {remLen : Word} :
    pbufAllocLoop (x :: tab) 0 remLen p m =
      let qlen := lwipMin remLen 256
      let m := pbufInitAllocedPbuf x 0 remLen qlen .pool 0 { m with mempPbufPool := tab }
      if 0 < remLen - qlen then pbufAllocLoop tab 0 (remLen - qlen) (p ++ [x]) m
      else (some (p ++ [x]), m) := rfl

/-- What a buffer takes leaves the rest to the others. -/
theorem toNat_rest (v : Word) : (v - lwipMin v 256).toNat = v.toNat - 256 := by
  have hmin := toNat_lwipMin v 256
  have hle : lwipMin v 256 ≤ v := by
    rw [BitVec.le_def, hmin]
    exact Nat.min_le_left _ _
  rw [BitVec.toNat_sub_of_le hle, hmin]
  change v.toNat - min v.toNat 256 = _
  omega

/-- Where the pool has room for the packet, it is handed out as a chain. -/
theorem pbufAllocLoop_some {remLen : Word} (htab : tab.Nodup) (hne : tab ≠ [])
    (hroom : remLen.toNat ≤ 256 * tab.length) :
    ∃ q rest m', pbufAllocLoop tab 0 remLen p m = (some (p ++ q), m') ∧ tab = q ++ rest ∧ q ≠ [] ∧
      m'.mempPbufPool = rest ∧ (∀ y ∉ q, m'.pbuf y = m.pbuf y) ∧ Chained m' q remLen.toNat := by
  induction tab generalizing remLen p m with
  | nil => exact absurd rfl hne
  | cons x tab ih =>
    obtain ⟨hx, htab⟩ := List.nodup_cons.mp htab
    have hrest := toNat_rest remLen
    have hlen := toNat_lwipMin remLen 256
    rw [List.length_cons] at hroom
    rw [pbufAllocLoop_cons]
    by_cases hmore : 0 < remLen - lwipMin remLen 256
    · rw [BitVec.lt_def] at hmore
      have hlong : 256 < remLen.toNat := by
        change 0 < _ at hmore
        omega
      have htab' : tab ≠ [] := by
        intro he
        rw [he, List.length_nil] at hroom
        omega
      obtain ⟨q, rest, m', heq, hq, -, hpool, hframe, hchain⟩ := ih (p := p ++ [x])
        (m := pbufInitAllocedPbuf x 0 remLen (lwipMin remLen 256) .pool 0 { m with mempPbufPool := tab })
        htab htab' (by rw [hrest]; omega)
      have hxq : x ∉ q := by
        intro he
        rw [hq] at hx
        exact hx (List.mem_append_left _ he)
      refine ⟨x :: q, rest, m', ?_, ?_, List.cons_ne_nil _ _, hpool, fun y hy ↦ ?_, ?_⟩
      · simp only [BitVec.lt_def, hmore, if_true, heq, List.append_assoc, List.singleton_append]
      · rw [hq, List.cons_append]
      · rw [List.mem_cons, not_or] at hy
        rw [hframe y hy.2]
        exact set_pbuf_of_ne hy.1
      · have hself : m'.pbuf x = _ := hframe x hxq
        rw [pbufInitAllocedPbuf, set_pbuf_self] at hself
        simp only [Chained, hself, hlen, true_and]
        refine ⟨Nat.min_le_left _ _, ?_⟩
        rw [hrest] at hchain
        have hmin : min remLen.toNat (256 : Word).toNat = 256 := Nat.min_eq_right (Nat.le_of_lt hlong)
        rwa [hmin]
    · refine ⟨[x], tab, _, if_neg hmore, rfl, List.cons_ne_nil _ _, rfl, fun y hy ↦ ?_, ?_⟩
      · exact set_pbuf_of_ne (List.ne_of_not_mem_cons hy)
      · rw [BitVec.lt_def] at hmore
        simp only [Chained, pbufInitAllocedPbuf, set_pbuf_self, hlen, true_and]
        change ¬0 < _ at hmore
        change min remLen.toNat 256 ≤ _ ∧ remLen.toNat - min remLen.toNat 256 = 0
        omega

/-- Where the pool is too small for the packet, the allocation fails and the pool is whole again. -/
theorem pbufAllocLoop_none {remLen : Word} (hfresh : Fresh m p) (hnd : (p ++ tab).Nodup)
    (hroom : 256 * tab.length < remLen.toNat) :
    (pbufAllocLoop tab 0 remLen p m).1 = none ∧
      (pbufAllocLoop tab 0 remLen p m).2.mempPbufPool = (p ++ tab).reverse := by
  induction tab generalizing remLen p m with
  | nil =>
    rw [List.append_nil] at hnd ⊢
    refine ⟨rfl, ?_⟩
    rw [pbufAllocLoop, pbufFree_fresh (m := { m with mempPbufPool := [] }) hfresh hnd, List.append_nil]
  | cons x tab ih =>
    have hrest := toNat_rest remLen
    rw [List.length_cons] at hroom
    have hmore : 0 < remLen - lwipMin remLen 256 := by
      rw [BitVec.lt_def]
      change 0 < _
      omega
    have hx : x ∉ p := by
      intro he
      exact (List.nodup_append.mp hnd).2.2 x he x List.mem_cons_self rfl
    rw [pbufAllocLoop_cons]
    simp only [hmore, if_true]
    have happ : p ++ x :: tab = p ++ [x] ++ tab := List.append_cons p x tab
    rw [happ] at hnd ⊢
    refine ih ?_ hnd (by rw [hrest]; omega)
    intro y hy
    by_cases he : y = x
    · subst he
      simp only [pbufInitAllocedPbuf, set_pbuf_self, true_and]
    · rw [pbufInitAllocedPbuf, set_pbuf_of_ne he]
      refine hfresh y ?_
      simpa only [List.mem_append, List.mem_singleton, he, or_false] using hy

end Allocation

section Copying

variable {dataptr : ℕ → Byte} {k n : ℕ}

theorem memcpy_fields (d : ℕ → Byte) : (b.memcpy d n).totLen = b.totLen ∧ (b.memcpy d n).len = b.len ∧
    (b.memcpy d n).payload = b.payload := ⟨rfl, rfl, rfl⟩

theorem pbufTakeLoop_frame (hy : y ∉ p) : (pbufTakeLoop dataptr p n k m).pbuf y = m.pbuf y := by
  induction p generalizing n k m with
  | nil => rfl
  | cons x next ih =>
    rw [List.mem_cons, not_or] at hy
    unfold pbufTakeLoop
    split
    · rfl
    · rw [ih hy.2]
      exact set_pbuf_of_ne hy.1

/-- A chain of the right length takes all the bytes, in order. -/
theorem pbufTakeLoop_spec (h : Chained m p n) (hp : p.Nodup) :
    Chained (pbufTakeLoop dataptr p n k m) p n ∧
      payloads (pbufTakeLoop dataptr p n k m) p = (List.range n).map fun i ↦ dataptr (k + i) := by
  induction p generalizing n k m with
  | nil =>
    cases h
    exact ⟨rfl, rfl⟩
  | cons x next ih =>
    obtain ⟨ht, hle, hnext⟩ := h
    obtain ⟨hx, hnd⟩ := List.nodup_cons.mp hp
    unfold pbufTakeLoop
    by_cases hn : n = 0
    · subst hn
      have hwhole : Chained m (x :: next) 0 := ⟨ht, hle, hnext⟩
      refine ⟨hwhole, ?_⟩
      rw [if_pos rfl, payloads, List.range_zero, List.map_nil, List.flatMap_eq_nil_iff]
      intro y hy
      rw [hwhole.zero y hy]
      rfl
    · have hmin : min n (m.pbuf x).len.toNat = (m.pbuf x).len.toNat := Nat.min_eq_right hle
      rw [if_neg hn]
      simp only [hmin]
      generalize hlen : (m.pbuf x).len.toNat = l at hle hnext
      have hset : (m.set x ((m.pbuf x).memcpy (fun i ↦ dataptr (k + i)) l)).pbuf x =
          (m.pbuf x).memcpy (fun i ↦ dataptr (k + i)) l := set_pbuf_self
      have hkeep : ∀ y ∈ next, (m.set x ((m.pbuf x).memcpy (fun i ↦ dataptr (k + i)) l)).pbuf y = m.pbuf y :=
        fun y hy ↦ set_pbuf_of_ne fun he ↦ hx (he ▸ hy)
      generalize m.set x ((m.pbuf x).memcpy (fun i ↦ dataptr (k + i)) l) = m₁ at hset hkeep ⊢
      obtain ⟨hchain, hbytes⟩ := ih (m := m₁) (k := k + l)
        (hnext.congr fun y hy ↦ by rw [hkeep y hy]; exact ⟨rfl, rfl⟩) hnd
      have hself : (pbufTakeLoop dataptr next (n - l) (k + l) m₁).pbuf x =
          (m.pbuf x).memcpy (fun i ↦ dataptr (k + i)) l := (pbufTakeLoop_frame hx).trans hset
      refine ⟨?_, ?_⟩
      · simp only [Chained, hself, memcpy_fields, hlen]
        exact ⟨ht, hle, hchain⟩
      · have hsplit : List.range n = List.range l ++ (List.range (n - l)).map (l + ·) := by
          rw [← List.range_add, Nat.add_sub_cancel' hle]
        rw [payloads, List.flatMap_cons, hself, hsplit, List.map_append, List.map_map]
        refine congrArg₂ (· ++ ·) ?_ (hbytes.trans ?_)
        · simp only [memcpy_fields, hlen]
          refine List.map_congr_left fun i hi ↦ ?_
          rw [List.mem_range] at hi
          simp [Pbuf.memcpy, hi]
        · simp [Nat.add_assoc]

end Copying

end Enc28j60.Lwip
