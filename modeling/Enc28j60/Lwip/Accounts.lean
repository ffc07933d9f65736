import Enc28j60.Lwip.Stack
import Enc28j60.StateLogic

namespace Enc28j60.Lwip

open RegisterMap StateLogic Ethernetif

variable {T : Multiset Ptr} {m : Memory} {ram : Heap} {x y : Ptr} {b c : Pbuf} {s : Stack} {i j k n : ℕ}
  {d : List Byte}

section Contents

/-- `n` bytes of the memory behind a buffer, from `i` on. -/
def Pbuf.read (b : Pbuf) (i n : ℕ) : List Byte := (List.range n).map fun j ↦ b.store (i + j)

/-- What the buffer holds. -/
def Pbuf.bytes (b : Pbuf) : List Byte := b.read b.payload b.len.toNat

theorem payloads_singleton : payloads m [x] = (m.pbuf x).bytes := List.flatMap_singleton ..

@[simp] theorem length_read : (b.read i n).length = n := by simp [Pbuf.read]

@[simp] theorem length_bytes : b.bytes.length = b.len.toNat := length_read

theorem read_add : b.read i (n + k) = b.read i n ++ b.read (i + n) k := by
  simp [Pbuf.read, List.range_add, Nat.add_assoc]

theorem read_congr (h : ∀ j, i ≤ j → j < i + n → c.store j = b.store j) : c.read i n = b.read i n := by
  refine List.map_congr_left fun j hj ↦ h _ (Nat.le_add_right _ _) ?_
  exact Nat.add_lt_add_left (List.mem_range.mp hj) i

theorem read_put_self (hn : d.length = n) : (b.put i d).read i n = d := by
  subst hn
  refine List.ext_getElem length_read fun j hj hj' ↦ ?_
  simp [Pbuf.read, Pbuf.put, hj']

theorem read_put_of_apart (h : i + n ≤ j ∨ j + d.length ≤ i) : (b.put j d).read i n = b.read i n := by
  refine read_congr fun k hk hk' ↦ ?_
  simp only [Pbuf.put]
  rw [if_neg (by omega)]

theorem put_fields : (b.put i d).payload = b.payload ∧ (b.put i d).len = b.len ∧
    (b.put i d).totLen = b.totLen ∧ (b.put i d).typeInternal = b.typeInternal ∧
    (b.put i d).ref = b.ref := ⟨rfl, rfl, rfl, rfl, rfl⟩

/-- The header in front of the payload becomes part of it. -/
def Pbuf.push (n : ℕ) (b : Pbuf) : Pbuf :=
  { b with payload := b.payload - n, len := b.len + BitVec.ofNat 16 n, totLen := b.totLen + BitVec.ofNat 16 n }

/-- The first bytes of the payload are a header that is done with. -/
def Pbuf.pull (n : ℕ) (b : Pbuf) : Pbuf :=
  { b with payload := b.payload + n, len := b.len - BitVec.ofNat 16 n, totLen := b.totLen - BitVec.ofNat 16 n }

/-- Nothing but the number of references differs. -/
def Alike (b c : Pbuf) : Prop := c = { b with ref := c.ref }

theorem Alike.refl (b : Pbuf) : Alike b b := rfl

theorem Alike.trans {a : Pbuf} (h : Alike a b) (h' : Alike b c) : Alike a c := by
  unfold Alike at *
  rw [h', h]

theorem Alike.bytes (h : Alike b c) : c.bytes = b.bytes := by rw [h]; rfl

end Contents

section Rules

variable {α : Type} {l : Loc}

@[simp] theorem wp_pbufOf {Q : Pbuf → Stack → Prop} : wp (pbufOf [x]) Q s ↔ Q (s.memory.pbuf x) s := Iff.rfl

@[simp] theorem wp_payloadOf {Q : Loc → Stack → Prop} :
    wp (payloadOf [x]) Q s ↔ Q ⟨x, (s.memory.pbuf x).payload⟩ s := Iff.rfl

@[simp] theorem wp_setPbuf {Q : Unit → Stack → Prop} {f : Pbuf → Pbuf} :
    wp (setPbuf x f) Q s ↔ Q ⟨⟩ { s with memory := s.memory.set x (f (s.memory.pbuf x)) } := Iff.rfl

@[simp] theorem wp_load8 {Q : Byte → Stack → Prop} : wp (load8 l i) Q s ↔ Q (byteAt s.memory l i) s := Iff.rfl

@[simp] theorem wp_load16 {Q : Word → Stack → Prop} : wp (load16 l i) Q s ↔ Q (word16 s.memory l i) s := Iff.rfl

@[simp] theorem wp_load32 {Q : Word32 → Stack → Prop} : wp (load32 l i) Q s ↔ Q (word32 s.memory l i) s := Iff.rfl

@[simp] theorem wp_loadMac {Q : LowLayer.MacAddrT → Stack → Prop} :
    wp (loadMac l i) Q s ↔ Q (macAt s.memory l i) s := Iff.rfl

@[simp] theorem wp_loadBytes {Q : List Byte → Stack → Prop} :
    wp (loadBytes l n) Q s ↔ Q (bytesAt s.memory l n) s := Iff.rfl

@[simp] theorem wp_storeBytes {Q : Unit → Stack → Prop} : wp (storeBytes l i d) Q s ↔
    Q ⟨⟩ { s with memory := s.memory.set l.buf ((s.memory.pbuf l.buf).put (l.off + i) d) } := Iff.rfl

theorem set_set : (m.set x b).set x c = m.set x c := by simp [Memory.set]

end Rules

section Accounts

/-- The type of a buffer tells from its address. -/
def typeOf (x : Ptr) : Byte := (if x < pbufPoolSize then PbufType.pool else PbufType.ram).toByte

/-- A buffer by itself: it is no part of a longer chain. -/
structure Single (x : Ptr) (b : Pbuf) : Prop where
  type : b.typeInternal = typeOf x
  whole : b.totLen = b.len
  room : x < pbufPoolSize → b.payload + b.len.toNat ≤ pbufPoolBufsize.toNat

/-- `T` are the references to buffers: their numbers are kept in the buffers, and all other buffers are
free, in the pool and in the heap. What a buffer holds is within its own block. -/
structure Accounts (T : Multiset Ptr) (m : Memory) (ram : Heap) : Prop where
  counted : ∀ x ∈ T, (m.pbuf x).ref.toNat = T.count x
  single : ∀ x ∈ T, Single x (m.pbuf x)
  pool : m.mempPbufPool.Nodup ∧ ∀ x, x ∈ m.mempPbufPool ↔ x < pbufPoolSize ∧ x ∉ T
  heap : ∃ b, Served ram b ∧ m.heap = b.map (fun e ↦ ramPtr e.1) ∧
    (∀ x, x ∈ m.heap ↔ pbufPoolSize ≤ x ∧ x ∈ T) ∧
    ∀ e ∈ b, sizeofStructPbuf.toNat + (m.pbuf (ramPtr e.1)).payload + (m.pbuf (ramPtr e.1)).len.toNat ≤ e.2

theorem Accounts.fits (h : Accounts T m ram) (hx : x ∈ T) : (m.pbuf x).payload + (m.pbuf x).len.toNat ≤ memSizeAligned := by
  by_cases hpool : x < pbufPoolSize
  · exact ((h.single x hx).room hpool).trans (by decide)
  · obtain ⟨b, hs, hheap, hmem, hroom⟩ := h.heap
    have hin := (hmem x).mpr ⟨Nat.le_of_not_lt hpool, hx⟩
    rw [hheap] at hin
    obtain ⟨e, he, rfl⟩ := List.mem_map.mp hin
    have hle := hs.within e he
    have hfit := hroom e he
    omega

/-- A buffer may be changed in all that the accounts are not about. -/
theorem Accounts.set (h : Accounts T m ram) (href : b.ref = (m.pbuf x).ref)
    (htype : b.typeInternal = (m.pbuf x).typeInternal) (hwhole : b.totLen = b.len)
    (hroom : b.payload + b.len.toNat ≤ (m.pbuf x).payload + (m.pbuf x).len.toNat) : Accounts T (m.set x b) ram := by
  obtain ⟨bs, hs, hheap, hmem, hrooms⟩ := h.heap
  refine ⟨fun y hy ↦ ?_, fun y hy ↦ ?_, h.pool, bs, hs, hheap, hmem, fun e he ↦ ?_⟩
  · rw [← h.counted y hy]
    by_cases he : y = x
    · subst he
      rw [set_pbuf_self, href]
    · rw [set_pbuf_of_ne he]
  · by_cases he : y = x
    · subst he
      have hsingle := h.single y hy
      rw [set_pbuf_self]
      exact ⟨htype.trans hsingle.type, hwhole, fun hy ↦ hroom.trans (hsingle.room hy)⟩
    · rw [set_pbuf_of_ne he]
      exact h.single y hy
  · have hold := hrooms e he
    by_cases hx : ramPtr e.1 = x
    · subst hx
      rw [set_pbuf_self]
      omega
    · rwa [set_pbuf_of_ne hx]

/-- One more reference is kept. -/
theorem Accounts.ref (h : Accounts T m ram) (hx : x ∈ T) (hfew : T.count x < 255) :
    Accounts (x ::ₘ T) (m.set x { m.pbuf x with ref := (m.pbuf x).ref + 1 }) ram := by
  obtain ⟨bs, hs, hheap, hmem, hrooms⟩ := h.heap
  have hin (y : Ptr) : y ∈ x ::ₘ T ↔ y ∈ T := by
    rw [Multiset.mem_cons, or_iff_right_of_imp]
    intro he
    exact he ▸ hx
  refine ⟨fun y hy ↦ ?_, fun y hy ↦ ?_, ⟨h.pool.1, fun y ↦ ?_⟩, bs, hs, hheap, fun y ↦ ?_, fun e he ↦ ?_⟩
  · have hcount := h.counted y ((hin y).mp hy)
    by_cases he : y = x
    · subst he
      rw [set_pbuf_self, Multiset.count_cons_self, ← hcount]
      have hone : (1 : Byte).toNat = 1 := rfl
      rw [BitVec.toNat_add]
      omega
    · rw [set_pbuf_of_ne he, Multiset.count_cons_of_ne he, hcount]
  · have hsingle := h.single y ((hin y).mp hy)
    by_cases he : y = x
    · subst he
      rw [set_pbuf_self]
      exact ⟨hsingle.type, hsingle.whole, hsingle.room⟩
    · rwa [set_pbuf_of_ne he]
  · rw [hin]
    exact h.pool.2 y
  · rw [hin]
    exact hmem y
  · have hold := hrooms e he
    by_cases he : ramPtr e.1 = x
    · subst he
      rwa [set_pbuf_self]
    · rwa [set_pbuf_of_ne he]

theorem release_fields : (release x m).pbuf = m.pbuf := by
  simp only [release]
  split
  · rfl
  · split
    · rfl
    · split <;> rfl

end Accounts

section Release

/-- The memory with one reference to `x` less. -/
def unref (x : Ptr) (m : Memory) : Memory := m.set x { m.pbuf x with ref := (m.pbuf x).ref - 1 }

theorem alike_unref (x y : Ptr) (m : Memory) : Alike (m.pbuf y) ((unref x m).pbuf y) := by
  by_cases he : y = x
  · subst he
    rw [unref, set_pbuf_self]
    rfl
  · rw [unref, set_pbuf_of_ne he]
    exact Alike.refl _

variable (h : Accounts (x ::ₘ T) m ram)

include h

theorem Accounts.toNat_unref : ((unref x m).pbuf x).ref.toNat = T.count x := by
  have hcount := h.counted x (Multiset.mem_cons_self x T)
  have hone : (1 : Byte).toNat = 1 := rfl
  rw [Multiset.count_cons_self] at hcount
  rw [unref, set_pbuf_self, BitVec.toNat_sub]
  omega

theorem Accounts.counted_unref : ∀ y ∈ T, ((unref x m).pbuf y).ref.toNat = T.count y := by
  intro y hy
  by_cases he : y = x
  · subst he
    exact h.toNat_unref
  · rw [unref, set_pbuf_of_ne he, h.counted y (Multiset.mem_cons_of_mem hy), Multiset.count_cons_of_ne he]

theorem Accounts.single_unref : ∀ y ∈ T, Single y ((unref x m).pbuf y) := by
  intro y hy
  have hold := h.single y (Multiset.mem_cons_of_mem hy)
  rw [alike_unref x y m]
  exact ⟨hold.type, hold.whole, hold.room⟩

/-- The buffer is still referred to. -/
theorem Accounts.still (hx : x ∈ T) : Accounts T (unref x m) ram := by
  obtain ⟨bs, hs, hheap, hmem, hroom⟩ := h.heap
  have hin (y : Ptr) : y ∈ x ::ₘ T ↔ y ∈ T := by
    rw [Multiset.mem_cons, or_iff_right_of_imp]
    intro he
    exact he ▸ hx
  refine ⟨h.counted_unref, h.single_unref, ⟨h.pool.1, fun y ↦ ?_⟩, bs, hs, hheap, fun y ↦ ?_, fun e he ↦ ?_⟩
  · rw [← hin]
    exact h.pool.2 y
  · rw [← hin]
    exact hmem y
  · rw [alike_unref x (ramPtr e.1) m]
    exact hroom e he

omit h in
theorem mem_of_last (hx : x ∉ T) (y : Ptr) : y ∈ T ↔ y ∈ x ::ₘ T ∧ y ≠ x := by
  rw [Multiset.mem_cons]
  exact ⟨fun hy ↦ ⟨.inr hy, fun he ↦ hx (he ▸ hy)⟩, fun ⟨hy, hne⟩ ↦ hy.resolve_left hne⟩

/-- The last reference is given up, and the buffer goes back to the pool. -/
theorem Accounts.release_pool (hx : x ∉ T) (hpool : x < pbufPoolSize) :
    Accounts T { unref x m with mempPbufPool := x :: m.mempPbufPool } ram := by
  obtain ⟨bs, hs, hheap, hmem, hroom⟩ := h.heap
  have hin := mem_of_last hx
  refine ⟨h.counted_unref, h.single_unref, ⟨?_, fun y ↦ ?_⟩, bs, hs, hheap, fun y ↦ ?_, fun e he ↦ ?_⟩
  · refine List.nodup_cons.mpr ⟨fun he ↦ ?_, h.pool.1⟩
    exact ((h.pool.2 x).mp he).2 (Multiset.mem_cons_self x T)
  · rw [List.mem_cons, h.pool.2 y, hin]
    by_cases he : y = x
    · subst he
      simp [hpool]
    · simp [he]
  · rw [hin]
    refine (hmem y).trans ⟨fun ⟨hle, hy⟩ ↦ ⟨hle, hy, fun he ↦ ?_⟩, fun ⟨hle, hy, _⟩ ↦ ⟨hle, hy⟩⟩
    exact Nat.not_le_of_lt hpool (he ▸ hle)
  · rw [alike_unref x (ramPtr e.1) m]
    exact hroom e he

/-- The last reference is given up, and the block of the buffer goes back to the heap. -/
theorem Accounts.release_ram (hx : x ∉ T) (hpool : ¬x < pbufPoolSize) :
    Accounts T { unref x m with heap := m.heap.erase x } (memFree (x - pbufPoolSize) ram) := by
  obtain ⟨bs, hs, hheap, hmem, hroom⟩ := h.heap
  have hin := mem_of_last hx
  have hheld := (hmem x).mpr ⟨Nat.le_of_not_lt hpool, Multiset.mem_cons_self x T⟩
  rw [hheap] at hheld
  obtain ⟨⟨p, n⟩, he, rfl⟩ := List.mem_map.mp hheld
  obtain ⟨b₁, b₂, rfl⟩ := List.append_of_mem he
  have hnodup := hs.nodup
  have hinj : Function.Injective ramPtr := fun a b he ↦ Nat.add_left_cancel he
  have hheapNodup : m.heap.Nodup := by
    have hmap := hnodup.map hinj
    rw [List.map_map] at hmap
    rwa [hheap]
  rw [List.map_append, List.map_cons, List.nodup_middle, List.nodup_cons, ← List.map_append] at hnodup
  have hnot : ramPtr p ∉ b₁.map fun e ↦ ramPtr e.1 := by
    intro hp
    obtain ⟨e, he, heq⟩ := List.mem_map.mp hp
    exact hnodup.1 (List.mem_map.mpr ⟨e, List.mem_append_left _ he, hinj heq⟩)
  have hback : ramPtr p - pbufPoolSize = p := Nat.add_sub_cancel_left ..
  refine ⟨h.counted_unref, h.single_unref, ⟨h.pool.1, fun y ↦ ?_⟩, b₁ ++ b₂, ?_, ?_, fun y ↦ ?_, fun e he ↦ ?_⟩
  · rw [hin]
    refine (h.pool.2 y).trans (and_congr_right fun hlt ↦ ?_)
    have hne : y ≠ ramPtr p := fun he ↦ hpool (he ▸ hlt)
    simp [hne]
  · rw [hback]
    exact .free hs
  · change m.heap.erase _ = _
    rw [hheap, List.map_append, List.map_cons, List.erase_append_right _ hnot, List.erase_cons_head,
      List.map_append]
  · rw [hin]
    refine hheapNodup.mem_erase_iff.trans ?_
    rw [hmem y, and_comm, and_assoc]
  · rw [alike_unref (ramPtr p) (ramPtr e.1) m]
    refine hroom e ?_
    rcases List.mem_append.mp he with he | he
    · exact List.mem_append_left _ he
    · exact List.mem_append_right _ (List.mem_cons_of_mem _ he)

omit h

/-- A reference is given up, and the buffer with the last one. -/
theorem freeChain_spec (h : Accounts (x ::ₘ T) s.memory s.ram) :
    wp (freeChain [x]) (fun _ s' ↦ ∃ m ram, s' = { s with memory := m, ram } ∧ Accounts T m ram ∧
      ∀ y, Alike (s.memory.pbuf y) (m.pbuf y)) s := by
  have hcount := h.toNat_unref
  have htype : ((unref x s.memory).pbuf x).typeInternal = typeOf x := by
    rw [alike_unref x x s.memory]
    exact (h.single x (Multiset.mem_cons_self x T)).type
  have halike := alike_unref x
  simp only [freeChain, setPbuf, setMemory, pbufOf, first, List.headD_cons, wp_bind, wp_modify, wp_get, wp_pure]
  change wp (if ((unref x s.memory).pbuf x).ref = 0 then _ else _) _ { s with memory := unref x s.memory }
  refine wp_ite (fun hzero ↦ ?_) fun hzero ↦ ?_
  · have hx : x ∉ T := by
      rw [← Multiset.count_eq_zero, ← hcount]
      exact congrArg BitVec.toNat hzero
    simp only [freePbuf, wp_bind, wp_get, htype]
    by_cases hpool : x < pbufPoolSize
    · have hsrc : typeOf x = PbufType.pool.toByte := congrArg PbufType.toByte (if_pos hpool)
      rw [hsrc, if_neg (by decide)]
      refine ⟨_, s.ram, rfl, ?_, fun y ↦ ?_⟩
      · rw [release_pool (htype.trans hsrc)]
        exact h.release_pool hx hpool
      · rw [release_fields]
        exact halike y _
    · have hsrc : typeOf x = PbufType.ram.toByte := congrArg PbufType.toByte (if_neg hpool)
      have hram : release x (unref x s.memory) = { unref x s.memory with
          heap := s.memory.heap.erase x } := by
        simp only [release, htype, hsrc]
        rfl
      rw [hsrc, if_pos (by decide)]
      refine ⟨_, _, rfl, ?_, fun y ↦ ?_⟩
      · rw [hram]
        exact h.release_ram hx hpool
      · rw [release_fields]
        exact halike y _
  · have hx : x ∈ T := by
      rw [← Multiset.count_pos, ← hcount]
      exact Nat.pos_of_ne_zero fun he ↦ hzero (BitVec.eq_of_toNat_eq he)
    exact ⟨_, s.ram, rfl, h.still hx, fun y ↦ halike y _⟩

end Release

section Allocation

theorem Accounts.fresh {bs : List (ℕ × ℕ)} (hs : Served ram bs) (hheap : m.heap = bs.map fun e ↦ ramPtr e.1)
    (hmem : ∀ x, x ∈ m.heap ↔ pbufPoolSize ≤ x ∧ x ∈ T) {size : Word} {p : ℕ} {ram' : Heap}
    (heq : memMalloc size ram = (some p, ram')) : ramPtr p ∉ T := by
  intro hp
  have hin := (hmem (ramPtr p)).mpr ⟨Nat.le_add_right _ _, hp⟩
  have hnodup := (hs.malloc heq).nodup
  rw [hheap] at hin
  obtain ⟨e, he, heq'⟩ := List.mem_map.mp hin
  have hfst : e.1 = p := Nat.add_left_cancel heq'
  exact (List.nodup_cons.mp hnodup).1 (List.mem_map.mpr ⟨e, he, hfst⟩)

/-- A new block is accounted for. -/
theorem Accounts.alloc (h : Accounts T m ram) {size : Word} {p : ℕ} {ram' : Heap}
    (heq : memMalloc size ram = (some p, ram')) (href : b.ref = 1) (htype : b.typeInternal = PbufType.ram.toByte)
    (hwhole : b.totLen = b.len) (hroom : sizeofStructPbuf.toNat + b.payload + b.len.toNat ≤ size.toNat) :
    Accounts (ramPtr p ::ₘ T) (Memory.set (ramPtr p) b { m with heap := ramPtr p :: m.heap }) ram' := by
  obtain ⟨bs, hs, hheap, hmem, hrooms⟩ := h.heap
  have hfresh := Accounts.fresh hs hheap hmem heq
  have hhigh : ¬ramPtr p < pbufPoolSize := Nat.not_lt_of_le (Nat.le_add_right _ _)
  have hne {y : Ptr} (hy : y ∈ T) : y ≠ ramPtr p := fun he ↦ hfresh (he ▸ hy)
  have hself : (Memory.set (ramPtr p) b { m with heap := ramPtr p :: m.heap }).pbuf (ramPtr p) = b := set_pbuf_self
  have hother {y : Ptr} (hy : y ≠ ramPtr p) :
      (Memory.set (ramPtr p) b { m with heap := ramPtr p :: m.heap }).pbuf y = m.pbuf y := set_pbuf_of_ne hy
  refine ⟨fun y hy ↦ ?_, fun y hy ↦ ?_, ⟨h.pool.1, fun y ↦ ?_⟩, (p, size.toNat) :: bs, hs.malloc heq, ?_,
    fun y ↦ ?_, fun e he ↦ ?_⟩
  · rcases Multiset.mem_cons.mp hy with rfl | hy
    · rw [hself, href, Multiset.count_cons_self, Multiset.count_eq_zero.mpr hfresh]
      rfl
    · rw [hother (hne hy), h.counted y hy, Multiset.count_cons_of_ne (hne hy)]
  · rcases Multiset.mem_cons.mp hy with rfl | hy
    · rw [hself]
      refine ⟨htype.trans (congrArg PbufType.toByte (if_neg hhigh).symm), hwhole, fun hlow ↦ absurd hlow hhigh⟩
    · rw [hother (hne hy)]
      exact h.single y hy
  · refine (h.pool.2 y).trans (and_congr_right fun hlow ↦ ?_)
    have hy : y ≠ ramPtr p := fun he ↦ hhigh (he ▸ hlow)
    rw [Multiset.mem_cons, not_or, and_iff_right hy]
  · exact congrArg (ramPtr p :: ·) hheap
  · refine List.mem_cons.trans ?_
    rw [hmem y, Multiset.mem_cons]
    by_cases he : y = ramPtr p
    · simp [he, Nat.le_of_not_lt hhigh]
    · simp [he]
  · rcases List.mem_cons.mp he with rfl | he
    · rw [hself]
      exact hroom
    · have hin : ramPtr e.1 ∈ m.heap := by
        rw [hheap]
        exact List.mem_map_of_mem he
      rw [hother (hne ((hmem _).mp hin).2)]
      exact hrooms e he

theorem le_memAlignSize (n : ℕ) : n ≤ memAlignSize n ∧ memAlignSize n < n + 4 := by
  unfold memAlignSize
  omega

/-- Some buffer of the heap is in use. -/
def Busy (T : Multiset Ptr) : Prop := ∃ x ∈ T, pbufPoolSize ≤ x

theorem Accounts.busy (h : Accounts T m ram) {size : Word} {ram' : Heap} (hpos : size ≠ 0)
    (hsize : size.toNat + sizeofStructMem ≤ memSizeAligned) (heq : memMalloc size ram = (none, ram')) : Busy T := by
  by_contra hidle
  obtain ⟨bs, hs, hheap, hmem, -⟩ := h.heap
  have hnil : bs = [] := by
    cases bs with
    | nil => rfl
    | cons e bs =>
      have hin : ramPtr e.1 ∈ m.heap := by
        rw [hheap]
        exact List.mem_cons_self
      obtain ⟨hle, hT⟩ := (hmem _).mp hin
      exact absurd ⟨_, hT, hle⟩ hidle
  subst hnil
  have hserved := hs.recovers hpos hsize
  rw [heq] at hserved
  cases hserved

/-- A buffer of the heap is new, or nothing happens. -/
theorem pbufAllocRam_spec (h : Accounts T s.memory s.ram) (layer length : Word) (hlayer : layer.toNat ≤ 40) :
    wp (pbufAllocRam layer length) (fun r s' ↦ ∃ m ram, s' = { s with memory := m, ram } ∧
      (r = [] ∧ m = s.memory ∧ Accounts T m ram ∧ (length.toNat ≤ 900 → Busy T) ∨ ∃ x, r = [x] ∧ pbufPoolSize ≤ x ∧ x ∉ T ∧
        Accounts (x ::ₘ T) m ram ∧ (∀ y, y ≠ x → m.pbuf y = s.memory.pbuf y) ∧
        (m.pbuf x).payload = memAlignSize layer.toNat ∧ (m.pbuf x).len = length)) s := by
  have hlen := le_memAlignSize length.toNat
  have halign := le_memAlignSize layer.toNat
  have hlt := length.isLt
  have hsize : memAlignSize sizeofStructPbuf.toNat = 16 := rfl
  unfold pbufAllocRam
  refine wp_ite (fun hover ↦ ⟨s.memory, s.ram, rfl, .inl ⟨rfl, rfl, h, fun hshort ↦ ?_⟩⟩) fun hfit ↦ ?_
  · rw [hsize] at hover
    simp only [BitVec.toNat_ofNat] at hover
    omega
  simp only [wp_bind, wp_get]
  obtain ⟨bs, hs, hheap, hmem, hrooms⟩ := h.heap
  rw [hsize] at hfit ⊢
  simp only [BitVec.toNat_ofNat, not_or, Nat.not_lt] at hfit ⊢
  rcases heq : memMalloc (BitVec.ofNat 16 (16 + (memAlignSize layer.toNat + memAlignSize length.toNat) % 2 ^ 16)) s.ram with
    ⟨_ | p, ram⟩
  · refine ⟨s.memory, ram, rfl, .inl ⟨rfl, rfl, ⟨h.counted, h.single, h.pool, bs, hs.refuse heq, hheap, hmem, hrooms⟩,
      fun hshort ↦ ?_⟩⟩
    refine h.busy (fun hzero ↦ ?_) ?_ heq
    · have hnat := congrArg BitVec.toNat hzero
      have h0 : (0 : Word).toNat = 0 := rfl
      rw [h0, BitVec.toNat_ofNat] at hnat
      omega
    · simp only [BitVec.toNat_ofNat, sizeofStructMem, memSizeAligned]
      omega
  · have h16 : sizeofStructPbuf.toNat = 16 := rfl
    refine ⟨_, ram, rfl, .inr ⟨ramPtr p, rfl, Nat.le_add_right _ _, Accounts.fresh hs hheap hmem heq, ?_, fun y hy ↦ ?_,
      ?_, ?_⟩⟩
    · refine h.alloc heq rfl rfl rfl ?_
      simp only [BitVec.toNat_ofNat, h16]
      omega
    · exact set_pbuf_of_ne hy
    all_goals
      rw [pbufInitAllocedPbuf, set_pbuf_self]

end Allocation

end Enc28j60.Lwip
