import Enc28j60.Lwip.Pbuf
import Enc28j60.Segments

namespace Enc28j60.Lwip

open RegisterMap Segments

/-- `struct mem`, the head of a block. Places in the heap are offsets from `ram`. -/
structure Mem where
  next : ℕ
  prev : ℕ
  used : Byte

/-- The heap of `mem.c`: the heads of its blocks, and the lowest free one. -/
structure Heap where
  ram : ℕ → Mem
  lfree : ℕ

def memSizeAligned : ℕ := 1024
def sizeofStructMem : ℕ := 8
def minSizeAligned : ℕ := 12

variable {h h' : Heap} {a p q x y n k size : ℕ} {r l t : List Segment} {s : Segment}

section Functions

def Heap.set (x : ℕ) (m : Mem) (h : Heap) : Heap := { h with ram := Function.update h.ram x m }

def memInit : Heap :=
  ⟨fun x ↦ if x = 0 then ⟨memSizeAligned, 0, 0⟩ else ⟨memSizeAligned, memSizeAligned, 1⟩, 0⟩

/-- The size of the block for a request of `size` bytes. -/
def blockSize (size : Word) : Word :=
  let size := lwipMemAlignSize size
  if size < BitVec.ofNat 16 minSizeAligned then BitVec.ofNat 16 minSizeAligned else size

/-- The neighbour after the block at `next`, if there is one, is told where its neighbour before is. -/
def relink (next prev : ℕ) (h : Heap) : Heap :=
  if next ≠ memSizeAligned then h.set next { h.ram next with prev } else h

/-- The loop of `mem_malloc` that looks for the next free block. -/
def nextFree : ℕ → ℕ → Heap → ℕ
  | 0, cur, _ => cur
  | fuel + 1, cur, h =>
    if (h.ram cur).used ≠ 0 ∧ cur ≠ memSizeAligned then nextFree fuel (h.ram cur).next h else cur

/-- The block at `ptr` is taken, and cut in two where the rest is large enough. -/
def takeBlock (ptr size : ℕ) (h : Heap) : Heap :=
  let mem := h.ram ptr
  if size + sizeofStructMem + minSizeAligned ≤ mem.next - (ptr + sizeofStructMem) then
    let ptr2 := ptr + sizeofStructMem + size
    let h := h.set ptr2 ⟨mem.next, ptr, 0⟩
    let h := h.set ptr ⟨ptr2, mem.prev, 1⟩
    relink mem.next ptr2 h
  else h.set ptr { mem with used := 1 }

/-- The end of the loop's pass, once the block at `ptr` is taken. -/
def adjustLfree (ptr : ℕ) (h : Heap) : Heap :=
  if ptr = h.lfree then { h with lfree := nextFree memSizeAligned h.lfree h } else h

/-- The loop of `mem_malloc` over the blocks, the lowest free one first. -/
def memMallocLoop : ℕ → ℕ → ℕ → Heap → Option ℕ × Heap
  | 0, _, _, h => (none, h)
  | fuel + 1, size, ptr, h =>
    if ptr < memSizeAligned - size then
      if (h.ram ptr).used = 0 ∧ size ≤ (h.ram ptr).next - (ptr + sizeofStructMem) then
        (some (ptr + sizeofStructMem), adjustLfree ptr (takeBlock ptr size h))
      else memMallocLoop fuel size (h.ram ptr).next h
    else (none, h)

def memMalloc (sizeIn : Word) (h : Heap) : Option ℕ × Heap :=
  if sizeIn = 0 then (none, h)
  else
    let size := blockSize sizeIn
    if BitVec.ofNat 16 memSizeAligned < size ∨ size < sizeIn then (none, h)
    else memMallocLoop memSizeAligned size.toNat h.lfree h

def memLinkValid (mem : ℕ) (h : Heap) : Prop :=
  let nmem := (h.ram mem).next
  let pmem := (h.ram mem).prev
  ¬(memSizeAligned < nmem ∨ memSizeAligned < pmem ∨ pmem ≠ mem ∧ (h.ram pmem).next ≠ mem ∨
    nmem ≠ memSizeAligned ∧ (h.ram nmem).prev ≠ mem)

instance : Decidable (memLinkValid x h) := inferInstanceAs (Decidable ¬_)

/-- The half of `plug_holes` about the neighbour after the block. -/
def plugNext (mem : ℕ) (h : Heap) : Heap :=
  let nmem := (h.ram mem).next
  if mem ≠ nmem ∧ (h.ram nmem).used = 0 ∧ nmem ≠ memSizeAligned then
    let h := if h.lfree = nmem then { h with lfree := mem } else h
    let h := h.set mem { h.ram mem with next := (h.ram nmem).next }
    relink (h.ram nmem).next mem h
  else h

/-- The half of `plug_holes` about the neighbour before the block. -/
def plugPrev (mem : ℕ) (h : Heap) : Heap :=
  let pmem := (h.ram mem).prev
  if pmem ≠ mem ∧ (h.ram pmem).used = 0 then
    let h := if h.lfree = mem then { h with lfree := pmem } else h
    let h := h.set pmem { h.ram pmem with next := (h.ram mem).next }
    relink (h.ram mem).next pmem h
  else h

def plugHoles (mem : ℕ) (h : Heap) : Heap := plugPrev mem (plugNext mem h)

/-- Where an assertion of `mem_free` fails, the heap is as before. -/
def memFree (rmem : ℕ) (h : Heap) : Heap :=
  let mem := rmem - sizeofStructMem
  if rmem % 4 ≠ 0 then h
  else if rmem < sizeofStructMem ∨ memSizeAligned < rmem + minSizeAligned then h
  else if (h.ram mem).used = 0 then h
  else if ¬memLinkValid mem h then h
  else
    let h := h.set mem { h.ram mem with used := 0 }
    let h := if mem < h.lfree then { h with lfree := mem } else h
    plugHoles mem h

end Functions

section Layout

@[simp] theorem ram_set {m : Mem} : (h.set x m).ram y = if y = x then m else h.ram y := Function.update_apply ..

@[simp] theorem lfree_set {m : Mem} : (h.set x m).lfree = h.lfree := rfl

theorem ram_relink : (relink x p h).ram y =
    if y = x ∧ x ≠ memSizeAligned then { h.ram x with prev := p } else h.ram y := by
  unfold relink
  split <;> simp_all

@[simp] theorem lfree_relink : (relink x p h).lfree = h.lfree := by
  unfold relink
  split <;> rfl

/-- The heads from `a` on are those of the row `r`; the block before them begins at `p`. -/
def Lays (h : Heap) : ℕ → ℕ → List Segment → Prop
  | _, _, [] => True
  | p, a, s :: r => h.ram a = ⟨a + s.1, p, if s.2 then 1 else 0⟩ ∧ Lays h a (a + s.1) r

/-- Where the last block of a row begins. -/
def lastStart : ℕ → ℕ → List Segment → ℕ
  | p, _, [] => p
  | _, a, s :: r => lastStart a (a + s.1) r

theorem lays_append : Lays h p a (l ++ r) ↔ Lays h p a l ∧ Lays h (lastStart p a l) (a + extent l) r := by
  induction l generalizing p a with
  | nil => simp [Lays, lastStart]
  | cons s l ih => simp [Lays, lastStart, ih, and_assoc, Nat.add_assoc]

theorem Lays.congr (hl : Lays h p a r) (hr : ∀ x ∈ starts a r, h'.ram x = h.ram x) : Lays h' p a r := by
  induction r generalizing p a with
  | nil => trivial
  | cons s r ih =>
    simp only [starts, List.forall_mem_cons] at hr
    exact ⟨hr.1.trans hl.1, ih hl.2 hr.2⟩

/-- The blocks of the heap are the row `r`. -/
structure Laid (h : Heap) (r : List Segment) : Prop where
  lays : Lays h 0 0 r
  whole : extent r = memSizeAligned
  least : ∀ s ∈ r, sizeofStructMem + minSizeAligned ≤ s.1 ∧ 4 ∣ s.1
  ramEnd : h.ram memSizeAligned = ⟨memSizeAligned, memSizeAligned, 1⟩

theorem Laid.congr (hl : Laid h r) (hram : h'.ram = h.ram) : Laid h' r :=
  ⟨hl.lays.congr fun x _ ↦ congrFun hram x, hl.whole, hl.least, (congrFun hram _).trans hl.ramEnd⟩

/-- Some neighbours are cut anew: the other heads are as before, but that the neighbour after them
is told where the last of them begins. -/
theorem Laid.recut {m : List Segment} (hl : Laid h (l ++ m ++ t)) (h' : Heap) (m' : List Segment)
    (hm : Lays h' (lastStart 0 0 l) (extent l) m') (hext : extent m' = extent m)
    (hleast : ∀ s ∈ m', sizeofStructMem + minSizeAligned ≤ s.1 ∧ 4 ∣ s.1)
    (hram : ∀ x, x < extent l ∨ extent (l ++ m) < x → h'.ram x = h.ram x)
    (hseam : h'.ram (extent (l ++ m)) =
      if extent (l ++ m) = memSizeAligned then h.ram (extent (l ++ m))
      else { h.ram (extent (l ++ m)) with
        prev := lastStart (lastStart 0 0 l) (extent l) m' }) :
    Laid h' (l ++ m' ++ t) := by
  have hpos (s : Segment) (hs : s ∈ l ++ m ++ t) : 0 < s.1 :=
    Nat.lt_of_lt_of_le (by decide) (hl.least s hs).1
  have hwhole := hl.whole
  have hlays := hl.lays
  rw [List.append_assoc, lays_append, lays_append] at hlays
  simp only [extent_append, Nat.zero_add] at hlays hwhole hram hseam
  obtain ⟨hlay, -, htail⟩ := hlays
  refine ⟨?_, ?_, ?_, ?_⟩
  · rw [List.append_assoc, lays_append, lays_append]
    refine ⟨hlay.congr fun x hx ↦ hram x (.inl ?_), ?_, ?_⟩
    · have hlt := lt_of_mem_starts (fun s hs ↦ hpos s (by simp [hs])) hx
      omega
    · rwa [Nat.zero_add]
    · rw [Nat.zero_add, hext]
      cases t with
      | nil => trivial
      | cons s t =>
        have hs := hpos s (by simp)
        rw [extent_cons] at hwhole
        rw [if_neg (by omega), htail.1] at hseam
        refine ⟨hseam, htail.2.congr fun x hx ↦ hram x (.inr ?_)⟩
        have hle := le_of_mem_starts hx
        omega
  · simp only [extent_append, hext]
    exact hwhole
  · intro s hs
    simp only [List.mem_append] at hs
    rcases hs with (hs | hs) | hs
    · exact hl.least s (by simp [hs])
    · exact hleast s hs
    · exact hl.least s (by simp [hs])
  · rw [← hl.ramEnd]
    by_cases he : extent l + extent m = memSizeAligned
    · rw [he, if_pos rfl] at hseam
      exact hseam
    · exact hram _ (.inr (by omega))

theorem Laid.head {u : Bool} (hl : Laid h (l ++ (n, u) :: t)) :
    h.ram (extent l) = ⟨extent l + n, lastStart 0 0 l, if u then 1 else 0⟩ := by
  have hlays := (lays_append.mp hl.lays).2.1
  rwa [Nat.zero_add] at hlays

/-- The head after a row: a further block, or the end of the heap. -/
theorem Laid.seam {u : Bool} (hl : Laid h (l ++ (n, u) :: t)) :
    (t = [] ∧ extent l + n = memSizeAligned) ∨
      ∃ k v t', t = (k, v) :: t' ∧ extent l + n < memSizeAligned ∧
        h.ram (extent l + n) = ⟨extent l + n + k, extent l, if v then 1 else 0⟩ := by
  have hwhole := hl.whole
  cases t with
  | nil =>
    left
    simp only [extent_append, extent_cons, extent_nil] at hwhole
    exact ⟨rfl, by omega⟩
  | cons s t =>
    right
    have hs := (hl.least s (by simp)).1
    simp only [extent_append, extent_cons] at hwhole
    have hlays := (lays_append.mp hl.lays).2.2.1
    simp only [Nat.zero_add] at hlays
    refine ⟨s.1, s.2, t, rfl, ?_, hlays⟩
    have hpos : 0 < s.1 := Nat.lt_of_lt_of_le (by decide) hs
    omega

theorem Laid.seam_prev {u : Bool} (hl : Laid h (l ++ (n, u) :: t)) : h.ram (extent l + n) =
    if extent l + n = memSizeAligned then h.ram (extent l + n)
    else { h.ram (extent l + n) with prev := extent l } := by
  split
  · rfl
  · rename_i hne
    rcases hl.seam with ⟨-, he⟩ | ⟨k, v, t', -, -, hram⟩
    · exact absurd he hne
    · rw [hram]

theorem Laid.length_lt (hl : Laid h r) : r.length < memSizeAligned := by
  have hsum (r : List Segment) (hr : ∀ s ∈ r, sizeofStructMem + minSizeAligned ≤ s.1 ∧ 4 ∣ s.1) :
      20 * r.length ≤ extent r := by
    induction r with
    | nil => exact Nat.le_refl _
    | cons s r ih =>
      simp only [List.forall_mem_cons] at hr
      have hs : 20 ≤ s.1 := hr.1.1
      have hrest := ih hr.2
      rw [List.length_cons, extent_cons]
      omega
  have hle := hsum r hl.least
  have hwhole : extent r = 1024 := hl.whole
  change r.length < 1024
  omega

/-- The blocks of the heap are the row `r`, and `mem.c` knows its lowest free one. -/
structure Whole (h : Heap) (r : List Segment) : Prop extends Laid h r where
  merged : Merged r
  lfree : h.lfree = firstFree 0 r

theorem whole_memInit : Whole memInit [(memSizeAligned, false)] := by
  refine ⟨⟨⟨rfl, trivial⟩, rfl, ?_, rfl⟩, List.isChain_singleton _, rfl⟩
  simp [memSizeAligned, sizeofStructMem, minSizeAligned]

end Layout

section Malloc

theorem nextFree_eq {fuel : ℕ} (hl : Laid h (l ++ t)) (hfuel : t.length < fuel) :
    nextFree fuel (extent l) h = firstFree (extent l) t := by
  induction t generalizing l fuel with
  | nil =>
    obtain ⟨fuel, rfl⟩ := Nat.exists_eq_add_of_lt hfuel
    have hend := hl.whole
    rw [List.append_nil] at hend
    simp [nextFree, firstFree, hend]
  | cons s t ih =>
    cases fuel with
    | zero => cases hfuel
    | succ fuel =>
      obtain ⟨n, u⟩ := s
      have hhead := hl.head
      have hpos : 0 < n := Nat.lt_of_lt_of_le (by decide) (hl.least (n, u) (by simp)).1
      have hne : extent l ≠ memSizeAligned := by
        have hwhole := hl.whole
        rw [extent_append, extent_cons] at hwhole
        omega
      cases u with
      | false => simp [nextFree, firstFree, hhead]
      | true =>
        have hrest : nextFree fuel (extent (l ++ [(n, true)])) h = _ :=
          ih (by simpa using hl) (by simpa using hfuel)
        simpa [nextFree, firstFree, hhead, hne] using hrest

/-- What a free block of `n` bytes is cut into. -/
def cutBlock (n size : ℕ) : List Segment :=
  if size + sizeofStructMem + minSizeAligned ≤ n - sizeofStructMem then
    [(sizeofStructMem + size, true), (n - (sizeofStructMem + size), false)]
  else [(n, true)]

theorem cutBlock_extent (hfit : sizeofStructMem + size ≤ n) : extent (cutBlock n size) = n := by
  unfold cutBlock
  split
  · simp
    omega
  · simp

theorem Laid.takeBlock (hl : Laid h (l ++ (n, false) :: t)) (hfit : sizeofStructMem + size ≤ n)
    (hsize : minSizeAligned ≤ size ∧ 4 ∣ size) : Laid (takeBlock (extent l) size h) (l ++ cutBlock n size ++ t) := by
  have hhead := hl.head
  have hn := hl.least (n, false) (by simp)
  have hmid : extent (l ++ [(n, false)]) = extent l + n := by simp
  have hlaid : Laid h (l ++ [(n, false)] ++ t) := by simpa using hl
  simp only [sizeofStructMem, minSizeAligned] at hfit hsize hn
  by_cases hcut : size + 8 + 12 ≤ n - 8
  · have htake : Lwip.takeBlock (extent l) size h = relink (extent l + n) (extent l + 8 + size)
        ((h.set (extent l + 8 + size) ⟨extent l + n, extent l, 0⟩).set (extent l)
          ⟨extent l + 8 + size, lastStart 0 0 l, 1⟩) := by
      have hroom : size + 8 + 12 ≤ extent l + n - (extent l + 8) := by omega
      simp only [Lwip.takeBlock, hhead, sizeofStructMem, minSizeAligned, if_pos hroom]
    have hm : cutBlock n size = [(8 + size, true), (n - (8 + size), false)] := if_pos hcut
    rw [htake]
    refine hlaid.recut _ _ ?_ (cutBlock_extent hfit) ?_ (fun x hx ↦ ?_) ?_
    · rw [hm]
      simp only [Lays, ram_relink, ram_set]
      grind
    · rw [hm]
      simp [sizeofStructMem, minSizeAligned]
      omega
    · simp only [hmid, ram_relink, ram_set] at hx ⊢
      grind
    · rw [hm]
      simp only [hmid, ram_relink, ram_set, lastStart]
      grind
  · have htake : Lwip.takeBlock (extent l) size h = h.set (extent l) ⟨extent l + n, lastStart 0 0 l, 1⟩ := by
      have hroom : ¬size + 8 + 12 ≤ extent l + n - (extent l + 8) := by omega
      simp only [Lwip.takeBlock, hhead, sizeofStructMem, minSizeAligned, if_neg hroom]
    have hm : cutBlock n size = [(n, true)] := if_neg hcut
    rw [htake]
    refine hlaid.recut _ _ ?_ (cutBlock_extent hfit) ?_ (fun x hx ↦ ?_) ?_
    · rw [hm]
      simp [Lays]
    · rw [hm]
      simpa [sizeofStructMem, minSizeAligned] using hn
    · rw [hmid] at hx
      rw [ram_set, if_neg (by omega)]
    · rw [hm, hmid, ram_set, if_neg (by omega)]
      exact hl.seam_prev

theorem Merged.cut (hm : Merged (l ++ (n, false) :: t)) : Merged (l ++ cutBlock n size ++ t) := by
  unfold Merged cutBlock at *
  split <;> cases t <;> simp_all [List.isChain_append, List.isChain_cons_cons]

theorem lfree_takeBlock : (Lwip.takeBlock p size h).lfree = h.lfree := by
  simp only [Lwip.takeBlock]
  split <;> simp

/-- The block that is found is taken. -/
theorem Whole.takeBlock (hw : Whole h (l ++ (n, false) :: t)) (hfit : sizeofStructMem + size ≤ n)
    (hsize : minSizeAligned ≤ size ∧ 4 ∣ size) :
    Whole (adjustLfree (extent l) (takeBlock (extent l) size h)) (l ++ cutBlock n size ++ t) := by
  have hl := hw.toLaid.takeBlock hfit hsize
  have hpos : ∀ s ∈ l, 0 < s.1 := fun s hs ↦ Nat.lt_of_lt_of_le (by decide) (hw.least s (by simp [hs])).1
  have hlfree := hw.lfree
  unfold adjustLfree
  rw [lfree_takeBlock]
  split
  · rename_i he
    refine ⟨hl.congr rfl, Merged.cut hw.merged, ?_⟩
    have htaken : ∀ s ∈ l, s.2 = true := by
      by_contra hfree
      have hlt := firstFree_lt (a := 0) hpos hfree
      rw [firstFree_append_left hfree] at hlfree
      omega
    have hlen := hl.length_lt
    simp only [List.append_assoc, List.length_append] at hl hlen
    rw [List.append_assoc, firstFree_append htaken, Nat.zero_add]
    change nextFree memSizeAligned h.lfree _ = _
    rw [← he]
    exact nextFree_eq hl (by rw [List.length_append]; omega)
  · rename_i hne
    refine ⟨hl, Merged.cut hw.merged, ?_⟩
    have hfree : ¬∀ s ∈ l, s.2 = true := by
      intro htaken
      rw [firstFree_append htaken, firstFree, Nat.zero_add] at hlfree
      exact hne hlfree.symm
    rw [lfree_takeBlock, hlfree, List.append_assoc, firstFree_append_left hfree, firstFree_append_left hfree]

/-- No block of the row is free and large enough. -/
def Tight (size : ℕ) (r : List Segment) : Prop := ∀ s ∈ r, s.2 = false → s.1 < sizeofStructMem + size

theorem memMallocLoop_eq (size fuel : ℕ) (hl : Laid h (l ++ t)) (hfuel : t.length < fuel) :
    (Tight size t ∧ memMallocLoop fuel size (extent l) h = (none, h)) ∨
      ∃ m n t', t = m ++ (n, false) :: t' ∧ sizeofStructMem + size ≤ n ∧
        memMallocLoop fuel size (extent l) h = (some (extent (l ++ m) + sizeofStructMem),
          adjustLfree (extent (l ++ m)) (takeBlock (extent (l ++ m)) size h)) := by
  induction t generalizing l fuel with
  | nil =>
    obtain ⟨fuel, rfl⟩ := Nat.exists_eq_add_of_lt hfuel
    have hend := hl.whole
    rw [List.append_nil] at hend
    left
    refine ⟨nofun, ?_⟩
    rw [hend]
    exact if_neg (by omega)
  | cons s t ih =>
    cases fuel with
    | zero => cases hfuel
    | succ fuel =>
      obtain ⟨n, u⟩ := s
      have hhead := hl.head
      have hn : 20 ≤ n := (hl.least (n, u) (by simp)).1
      have hwhole := hl.whole
      rw [extent_append, extent_cons] at hwhole
      simp only [sizeofStructMem, memSizeAligned] at *
      by_cases hloop : extent l < 1024 - size
      · by_cases hfit : u = false ∧ 8 + size ≤ n
        · obtain ⟨rfl, hfit⟩ := hfit
          right
          refine ⟨[], n, t, rfl, hfit, ?_⟩
          have hroom : size ≤ extent l + n - (extent l + 8) := by omega
          simp [memMallocLoop, memSizeAligned, sizeofStructMem, hloop, hhead, hroom]
        · have hno : ¬((h.ram (extent l)).used = 0 ∧ size ≤ (h.ram (extent l)).next - (extent l + 8)) := by
            rw [hhead]
            rintro ⟨hu, hroom⟩
            change size ≤ extent l + n - (extent l + 8) at hroom
            cases u with
            | false => exact hfit ⟨rfl, by omega⟩
            | true => cases hu
          have hstep : memMallocLoop (fuel + 1) size (extent l) h =
              memMallocLoop fuel size (extent (l ++ [(n, u)])) h := by
            have hnext : (h.ram (extent l)).next = extent (l ++ [(n, u)]) := by simp [hhead]
            exact ((if_pos hloop).trans (if_neg hno)).trans (by rw [hnext])
          rw [hstep]
          rcases ih (l := l ++ [(n, u)]) _ (by simpa using hl) (Nat.lt_of_succ_lt_succ hfuel) with
            ⟨htight, heq⟩ | ⟨m, k, t', rfl, hk, heq⟩
          · left
            refine ⟨fun s hs hfree ↦ ?_, heq⟩
            cases hs with
            | head => exact Nat.lt_of_not_le fun hle ↦ hfit ⟨hfree, hle⟩
            | tail _ hs => exact htight s hs hfree
          · right
            exact ⟨(n, u) :: m, k, t', rfl, hk, by simpa using heq⟩
      · left
        refine ⟨fun s hs _ ↦ ?_, if_neg hloop⟩
        have hle : s.1 ≤ extent ((n, u) :: t) := List.le_sum_of_mem (List.mem_map_of_mem hs)
        have hs20 : 20 ≤ s.1 := (hl.least s (List.mem_append_right _ hs)).1
        rw [extent_cons] at hle
        change s.1 < 8 + size
        omega

theorem toNat_lwipMemAlignSize (v : Word) : (lwipMemAlignSize v).toNat = (v + 3).toNat / 4 * 4 := by
  have h : lwipMemAlignSize v = ((v + 3) >>> 2) <<< 2 := by
    unfold lwipMemAlignSize
    ext i hi
    interval_cases i <;> simp
  rw [h]
  simp [Nat.shiftLeft_eq, Nat.shiftRight_eq_div_pow]
  omega

theorem toNat_blockSize (size : Word) (h : size.toNat + 3 < 2 ^ 16) :
    (blockSize size).toNat = max minSizeAligned ((size.toNat + 3) / 4 * 4) := by
  have hadd : (size + 3).toNat = size.toNat + 3 := by
    rw [BitVec.toNat_add]
    exact Nat.mod_eq_of_lt h
  have halign := toNat_lwipMemAlignSize size
  rw [hadd] at halign
  unfold blockSize
  by_cases hlt : lwipMemAlignSize size < BitVec.ofNat 16 minSizeAligned
  · simp only [if_pos hlt]
    rw [BitVec.lt_def, halign] at hlt
    exact (Nat.max_eq_left (Nat.le_of_lt hlt)).symm
  · simp only [if_neg hlt]
    rw [BitVec.lt_def, halign] at hlt
    rw [halign]
    exact (Nat.max_eq_right (Nat.le_of_not_lt hlt)).symm

theorem blockSize_spec (size : Word) : minSizeAligned ≤ (blockSize size).toNat ∧ 4 ∣ (blockSize size).toNat := by
  have halign := toNat_lwipMemAlignSize size
  unfold blockSize
  by_cases hlt : lwipMemAlignSize size < BitVec.ofNat 16 minSizeAligned
  · simp only [if_pos hlt]
    decide
  · simp only [if_neg hlt]
    refine ⟨Nat.le_of_not_lt fun h ↦ hlt (BitVec.lt_def.mpr h), ?_⟩
    rw [halign]
    exact Nat.dvd_mul_left _ _

theorem taken_cutBlock (hfit : sizeofStructMem + size ≤ n) : ∃ m, sizeofStructMem + size ≤ m ∧
    taken 0 (l ++ cutBlock n size ++ t) = taken 0 l ++ (extent l, m) :: taken (extent l + n) t := by
  unfold cutBlock
  split
  · refine ⟨_, Nat.le_refl _, ?_⟩
    have hrest : extent l + (sizeofStructMem + size) + (n - (sizeofStructMem + size)) = extent l + n := by omega
    simp [taken_append, taken, hrest]
  · exact ⟨n, hfit, by simp [taken_append, taken]⟩

/-- `mem_malloc` takes a block that is large enough, and fails only where there is none. -/
theorem memMalloc_spec {r : List Segment} (sizeIn : Word) (hw : Whole h r) :
    (∃ l n t h', r = l ++ (n, false) :: t ∧ memMalloc sizeIn h = (some (extent l + sizeofStructMem), h') ∧
      sizeIn ≠ 0 ∧ sizeIn ≤ blockSize sizeIn ∧ sizeofStructMem + (blockSize sizeIn).toNat ≤ n ∧
      Whole h' (l ++ cutBlock n (blockSize sizeIn).toNat ++ t)) ∨
    memMalloc sizeIn h = (none, h) ∧ (sizeIn = 0 ∨ blockSize sizeIn < sizeIn ∨ Tight (blockSize sizeIn).toNat r) := by
  have hwhole := hw.whole
  unfold memMalloc
  by_cases hzero : sizeIn = 0
  · right
    exact ⟨if_pos hzero, .inl hzero⟩
  · rw [if_neg hzero]
    by_cases hbig : BitVec.ofNat 16 memSizeAligned < blockSize sizeIn ∨ blockSize sizeIn < sizeIn
    · right
      refine ⟨if_pos hbig, .inr (hbig.symm.imp_right fun hbig s hs _ ↦ ?_)⟩
      have hle : s.1 ≤ extent r := List.le_sum_of_mem (List.mem_map_of_mem hs)
      have hlt : memSizeAligned < (blockSize sizeIn).toNat := BitVec.lt_def.mp hbig
      omega
    · simp only [if_neg hbig]
      obtain ⟨l, t, rfl, htaken, hfirst⟩ := exists_firstFree (a := 0) r
      have hlen := hw.length_lt
      have hlfree : h.lfree = extent l := by rw [hw.lfree, hfirst, Nat.zero_add]
      rw [hlfree]
      rcases memMallocLoop_eq (blockSize sizeIn).toNat memSizeAligned hw.toLaid
          (by rw [List.length_append] at hlen; omega) with
        ⟨htight, heq⟩ | ⟨m, n, t', rfl, hfit, heq⟩
      · right
        refine ⟨heq, .inr (.inr fun s hs hfree ↦ ?_)⟩
        rcases List.mem_append.mp hs with hs | hs
        · cases hfree.symm.trans (htaken s hs)
        · exact htight s hs hfree
      · left
        rw [← List.append_assoc] at hw
        refine ⟨l ++ m, n, t', _, (List.append_assoc ..).symm, heq, hzero, ?_, hfit,
          hw.takeBlock hfit (blockSize_spec _)⟩
        exact BitVec.not_lt.mp fun h ↦ hbig (.inr h)

end Malloc

section Free

theorem Laid.dvd (hl : Laid h (l ++ t)) : 4 ∣ extent l := by
  have hl' : ∀ s ∈ l, 4 ∣ s.1 := fun s hs ↦ (hl.least s (List.mem_append_left _ hs)).2
  clear hl
  induction l with
  | nil => exact Nat.dvd_zero 4
  | cons s l ih =>
    simp only [List.forall_mem_cons] at hl'
    rw [extent_cons]
    exact Nat.dvd_add hl'.1 (ih hl'.2)

theorem lastStart_concat : lastStart p a (l ++ [s]) = a + extent l := by
  induction l generalizing p a with
  | nil => rfl
  | cons s' l ih => simp [lastStart, ih, Nat.add_assoc]

theorem Laid.linkValid {u : Bool} (hl : Laid h (l ++ (n, u) :: t)) : memLinkValid (extent l) h := by
  have hwhole := hl.whole
  rw [extent_append, extent_cons] at hwhole
  have hprev : lastStart 0 0 l = extent l ∨ lastStart 0 0 l < extent l ∧ (h.ram (lastStart 0 0 l)).next = extent l := by
    rcases List.eq_nil_or_concat l with rfl | ⟨l, s, rfl⟩
    · exact .inl rfl
    · right
      have hs : 20 ≤ s.1 := (hl.least s (by simp)).1
      have hhead : h.ram (extent l) = _ := Laid.head (u := s.2) (n := s.1) (t := (n, u) :: t) (by simpa using hl)
      rw [List.concat_eq_append, lastStart_concat, Nat.zero_add, hhead, extent_append]
      simp
      omega
  simp only [memLinkValid, hl.head]
  rintro (hlt | hlt | ⟨hne, hlink⟩ | ⟨hne, hlink⟩)
  · omega
  · omega
  · exact hlink (hprev.resolve_left hne).2
  · rcases hl.seam with ⟨-, he⟩ | ⟨k, v, t', -, -, hram⟩
    · exact hne he
    · exact hlink (by rw [hram])

/-- Two free neighbours are made one block. -/
theorem Laid.merge (hl : Laid h (l ++ (n, false) :: (k, false) :: t)) :
    Laid (relink (extent l + n + k) (extent l)
      (h.set (extent l) { h.ram (extent l) with next := extent l + n + k })) (l ++ (n + k, false) :: t) := by
  have hn := hl.least (n, false) (by simp)
  have hk := hl.least (k, false) (by simp)
  have hmid : extent (l ++ [(n, false), (k, false)]) = extent l + n + k := by simp [Nat.add_assoc]
  have hlaid : Laid h (l ++ [(n, false), (k, false)] ++ t) := by simpa using hl
  simp only [sizeofStructMem, minSizeAligned] at hn hk
  have hmerged := hlaid.recut (relink (extent l + n + k) (extent l)
    (h.set (extent l) { h.ram (extent l) with next := extent l + n + k })) [(n + k, false)] ?_ ?_ ?_ (fun x hx ↦ ?_) ?_
  · simpa using hmerged
  · simp only [Lays, ram_relink, ram_set, hl.head]
    grind
  · simp
  · simp [sizeofStructMem, minSizeAligned]
    omega
  · simp only [hmid, ram_relink, ram_set] at hx ⊢
    grind
  · simp only [hmid, ram_relink, ram_set, lastStart]
    grind

theorem plugNext_spec (hl : Laid h (l ++ (n, false) :: t)) (hf : h.lfree = firstFree 0 (l ++ (n, false) :: t)) :
    ∃ n' t', Laid (plugNext (extent l) h) (l ++ (n', false) :: t') ∧
      (plugNext (extent l) h).lfree = firstFree 0 (l ++ (n', false) :: t') ∧
      taken 0 (l ++ (n', false) :: t') = taken 0 (l ++ (n, false) :: t) ∧
      (Merged t → Merged ((n', false) :: t')) := by
  have hn : 20 ≤ n := (hl.least (n, false) (by simp)).1
  have hhead := hl.head
  have hle : firstFree 0 (l ++ (n, false) :: t) ≤ 0 + extent l := firstFree_le_free
  simp only [plugNext, hhead]
  rcases hl.seam with ⟨rfl, he⟩ | ⟨k, v, t', rfl, he, hram⟩
  · rw [if_neg fun h ↦ h.2.2 he]
    exact ⟨n, [], hl, hf, rfl, fun _ ↦ List.isChain_singleton _⟩
  · cases v with
    | true =>
      have hused : (h.ram (extent l + n)).used = 1 := by rw [hram, if_pos rfl]
      rw [if_neg fun h ↦ absurd (hused.symm.trans h.2.1) (by decide)]
      refine ⟨n, _, hl, hf, rfl, fun hm ↦ List.isChain_cons_cons.mpr ⟨.inr rfl, hm⟩⟩
    | false =>
      have hne : h.lfree ≠ extent l + n := by omega
      rw [if_pos ⟨by omega, by rw [hram]; rfl, by omega⟩]
      simp only [if_neg hne, hram, ram_set, lfree_relink, lfree_set]
      refine ⟨n + k, t', ?_, ?_, taken_merge, fun hm ↦ ?_⟩
      · have hmerge := hl.merge
        have hpos : n ≠ 0 := by omega
        simpa [hhead, hram, hpos] using hmerge
      · rw [hf, firstFree_merge]
      · cases t' with
        | nil => exact List.isChain_singleton _
        | cons s t' =>
          have hs := List.isChain_cons_cons.mp hm
          exact List.isChain_cons_cons.mpr hs

theorem plugPrev_spec (hl : Laid h (l ++ (n, false) :: t)) (hf : h.lfree = firstFree 0 (l ++ (n, false) :: t))
    (hm : Merged l) (ht : Merged ((n, false) :: t)) :
    ∃ r, Whole (plugPrev (extent l) h) r ∧ taken 0 r = taken 0 (l ++ (n, false) :: t) := by
  have hhead := hl.head
  simp only [plugPrev, hhead]
  rcases List.eq_nil_or_concat l with rfl | ⟨l, ⟨k, u⟩, rfl⟩
  · rw [if_neg fun h ↦ h.1 rfl]
    exact ⟨_, ⟨hl, ht, hf⟩, rfl⟩
  · simp only [List.concat_eq_append, List.append_assoc, List.singleton_append] at *
    have hk : 20 ≤ k := (hl.least (k, u) (by simp)).1
    have hprev := hl.head
    have hext : extent (l ++ [(k, u)]) = extent l + k := by simp
    have hle : h.lfree ≤ 0 + extent (l ++ [(k, u)]) := by
      rw [hf, List.append_cons]
      exact firstFree_le_free
    rw [lastStart_concat, Nat.zero_add, hext]
    cases u with
    | true =>
      have hused : (h.ram (extent l)).used = 1 := by rw [hprev, if_pos rfl]
      rw [if_neg fun h ↦ absurd (hused.symm.trans h.2) (by decide)]
      refine ⟨_, ⟨hl, ?_, hf⟩, rfl⟩
      have hsplit : l ++ (k, true) :: (n, false) :: t = l ++ [(k, true)] ++ (n, false) :: t := by simp
      unfold Merged at *
      rw [hsplit]
      exact List.isChain_append.mpr ⟨hm, ht, by simp⟩
    | false =>
      have hlt : h.lfree ≠ extent l + k := by
        have hle : firstFree 0 (l ++ (k, false) :: (n, false) :: t) ≤ 0 + extent l := firstFree_le_free
        omega
      rw [if_pos ⟨by omega, by rw [hprev]; rfl⟩]
      simp only [if_neg hlt]
      rw [hext] at hhead
      refine ⟨l ++ (k + n, false) :: t, ⟨?_, ?_, ?_⟩, taken_merge⟩
      · have hmerge := hl.merge
        have hpos : k ≠ 0 := by omega
        simpa [hhead, hpos] using hmerge
      · unfold Merged at *
        cases t <;> simp_all [List.isChain_append, List.isChain_cons_cons]
      · rw [lfree_relink, lfree_set, hf, firstFree_merge]

/-- A block that is given back is free, and one with its free neighbours. -/
theorem memFree_spec (hw : Whole h (l ++ (n, true) :: t)) : ∃ r, Whole (memFree (extent l + sizeofStructMem) h) r ∧
    taken 0 r = taken 0 l ++ taken (extent l + n) t := by
  have hn := hw.least (n, true) (by simp)
  have hpos : ∀ s ∈ l, 0 < s.1 := fun s hs ↦ Nat.lt_of_lt_of_le (by decide) (hw.least s (by simp [hs])).1
  have hdvd := hw.dvd
  have hwhole := hw.whole
  rw [extent_append, extent_cons] at hwhole
  simp only [sizeofStructMem, minSizeAligned, memSizeAligned] at hn hwhole
  have hhead := hw.head
  have hfree : Laid (h.set (extent l) { h.ram (extent l) with used := 0 }) (l ++ (n, false) :: t) := by
    have hmid : extent (l ++ [(n, true)]) = extent l + n := by simp
    have hlaid : Laid h (l ++ [(n, true)] ++ t) := by simpa using hw.toLaid
    have hset := hlaid.recut (h.set (extent l) { h.ram (extent l) with used := 0 }) [(n, false)]
      ?_ ?_ ?_ (fun x hx ↦ ?_) ?_
    · simpa using hset
    · simp [Lays, hhead]
    · simp
    · simpa [sizeofStructMem, minSizeAligned] using hn
    · rw [hmid] at hx
      rw [ram_set, if_neg (by omega)]
    · rw [hmid, ram_set, if_neg (by omega)]
      exact hw.seam_prev
  have hmem : memFree (extent l + sizeofStructMem) h =
      plugHoles (extent l) (if extent l < h.lfree then
        { h.set (extent l) { h.ram (extent l) with used := 0 } with lfree := extent l }
        else h.set (extent l) { h.ram (extent l) with used := 0 }) := by
    have hback : extent l + sizeofStructMem - sizeofStructMem = extent l := Nat.add_sub_cancel ..
    have hused : ¬(h.ram (extent l)).used = 0 := by
      rw [hhead, if_pos rfl]
      exact (by decide : (1 : Byte) ≠ 0)
    have halign : ¬(extent l + sizeofStructMem) % 4 ≠ 0 := by
      simp only [sizeofStructMem]
      omega
    have hrange : ¬(extent l + sizeofStructMem < sizeofStructMem ∨
        memSizeAligned < extent l + sizeofStructMem + minSizeAligned) := by
      simp only [sizeofStructMem, minSizeAligned, memSizeAligned]
      omega
    simp only [memFree, hback, if_neg halign, if_neg hrange, if_neg hused, not_true, if_false, hw.linkValid]
    rfl
  have hlow : Laid (if extent l < h.lfree then
        { h.set (extent l) { h.ram (extent l) with used := 0 } with lfree := extent l }
        else h.set (extent l) { h.ram (extent l) with used := 0 }) (l ++ (n, false) :: t) := hfree.congr (by split <;> rfl)
  have hmin : (if extent l < h.lfree then
        { h.set (extent l) { h.ram (extent l) with used := 0 } with lfree := extent l }
        else h.set (extent l) { h.ram (extent l) with used := 0 }).lfree = firstFree 0 (l ++ (n, false) :: t) := by
    rw [firstFree_release hpos, ← hw.lfree, Nat.zero_add]
    split
    · exact (Nat.min_eq_right (Nat.le_of_lt ‹_›)).symm
    · exact (Nat.min_eq_left (Nat.le_of_not_lt ‹_›)).symm
  obtain ⟨hml, hmt, -⟩ := List.isChain_append.mp hw.merged
  obtain ⟨n', t', hl', hf', ht', hm'⟩ := plugNext_spec hlow hmin
  obtain ⟨r, hr, htr⟩ := plugPrev_spec hl' hf' hml (hm' hmt.tail)
  rw [hmem, plugHoles]
  exact ⟨r, hr, htr.trans (ht'.trans (by simp [taken_append, taken]))⟩

end Free

section Runs

/-- The heap after calls of `mem_malloc` and `mem_free`, from `mem_init` on, and what the callers
hold: the addresses returned, each with the size that was asked for. -/
inductive Served : Heap → List (ℕ × ℕ) → Prop
  | init : Served memInit []
  | malloc {h h' : Heap} {b : List (ℕ × ℕ)} {size : Word} {p : ℕ} :
      Served h b → memMalloc size h = (some p, h') → Served h' ((p, size.toNat) :: b)
  | refuse {h h' : Heap} {b : List (ℕ × ℕ)} {size : Word} :
      Served h b → memMalloc size h = (none, h') → Served h' b
  | free {h : Heap} {b₁ b₂ : List (ℕ × ℕ)} {p n : ℕ} :
      Served h (b₁ ++ (p, n) :: b₂) → Served (memFree p h) (b₁ ++ b₂)

/-- The block at `c` holds what was asked for with `b`. -/
def Holds (b c : ℕ × ℕ) : Prop := b.1 = c.1 + sizeofStructMem ∧ sizeofStructMem + b.2 ≤ c.2

/-- The taken blocks are those that the callers hold. -/
def Kept (h : Heap) (b : List (ℕ × ℕ)) : Prop :=
  ∃ r c, Whole h r ∧ c.Perm (taken 0 r) ∧ List.Forall₂ Holds b c

theorem forall₂_split {R : ℕ × ℕ → ℕ × ℕ → Prop} {b₁ b₂ c : List (ℕ × ℕ)} {e : ℕ × ℕ}
    (hb : List.Forall₂ R (b₁ ++ e :: b₂) c) :
    ∃ c₁ d c₂, c = c₁ ++ d :: c₂ ∧ R e d ∧ List.Forall₂ R (b₁ ++ b₂) (c₁ ++ c₂) := by
  induction b₁ generalizing c with
  | nil =>
    cases hb with
    | cons he hb => exact ⟨[], _, _, rfl, he, hb⟩
  | cons e' b₁ ih =>
    cases hb with
    | cons he' hb =>
      obtain ⟨c₁, d, c₂, rfl, he, hb⟩ := ih hb
      exact ⟨_ :: c₁, d, c₂, rfl, he, .cons he' hb⟩

theorem Holds.apart {b c : List (ℕ × ℕ)} (hb : List.Forall₂ Holds b c)
    (hc : c.Pairwise fun e f ↦ e.1 + e.2 ≤ f.1 ∨ f.1 + f.2 ≤ e.1) :
    b.Pairwise fun e f ↦ e.1 + e.2 ≤ f.1 ∨ f.1 + f.2 ≤ e.1 := by
  induction hb with
  | nil => exact .nil
  | cons he hb ih =>
    obtain ⟨hfar, hrest⟩ := List.pairwise_cons.mp hc
    refine List.pairwise_cons.mpr ⟨fun f hf ↦ ?_, ih hrest⟩
    obtain ⟨b₁, b₂, rfl⟩ := List.append_of_mem hf
    obtain ⟨c₁, d, c₂, rfl, hd, -⟩ := forall₂_split hb
    have hapart := hfar d (by simp)
    simp only [Holds] at he hd
    omega

theorem Served.kept {b : List (ℕ × ℕ)} (hs : Served h b) : Kept h b := by
  induction hs with
  | init => exact ⟨_, [], whole_memInit, .nil, .nil⟩
  | malloc _ hm ih =>
    rename_i size p _
    obtain ⟨r, c, hw, hc, hb⟩ := ih
    rcases memMalloc_spec size hw with ⟨l, n, t, h₁, rfl, heq, -, hle, hfit, hw'⟩ | ⟨heq, -⟩
    · cases heq.symm.trans hm
      obtain ⟨m, hm, ht⟩ := taken_cutBlock (l := l) (t := t) hfit
      refine ⟨_, (extent l, m) :: c, hw', ?_, .cons ⟨rfl, ?_⟩ hb⟩
      · rw [ht]
        refine (hc.cons _).trans ?_
        simpa [taken_append, taken] using List.perm_middle.symm
      · have hsize := BitVec.le_def.mp hle
        change sizeofStructMem + size.toNat ≤ m
        omega
    · cases heq.symm.trans hm
  | refuse _ hm ih =>
    rename_i size _
    obtain ⟨r, c, hw, hc, hb⟩ := ih
    rcases memMalloc_spec size hw with ⟨l, n, t, h₁, rfl, heq, -⟩ | ⟨heq, -⟩
    · cases heq.symm.trans hm
    · cases heq.symm.trans hm
      exact ⟨r, c, hw, hc, hb⟩
  | free _ ih =>
    obtain ⟨r, c, hw, hc, hb⟩ := ih
    obtain ⟨c₁, ⟨x, m⟩, c₂, rfl, ⟨rfl, -⟩, hrest⟩ := forall₂_split hb
    obtain ⟨l, t, rfl, hx⟩ := mem_taken.mp (hc.subset (List.mem_append_right _ List.mem_cons_self))
    rw [Nat.zero_add] at hx
    subst hx
    obtain ⟨r, hr, ht⟩ := memFree_spec hw
    refine ⟨r, c₁ ++ c₂, hr, ?_, hrest⟩
    have hall : taken 0 (l ++ (m, true) :: t) = taken 0 l ++ (extent l, m) :: taken (extent l + m) t := by
      simp [taken_append, taken]
    rw [hall] at hc
    rw [ht]
    exact (List.perm_middle.symm.trans (hc.trans List.perm_middle)).cons_inv

theorem Served.pos {b : List (ℕ × ℕ)} (hs : Served h b) : ∀ e ∈ b, 0 < e.2 := by
  induction hs with
  | init => exact List.forall_mem_nil _
  | malloc hs hm ih =>
    rename_i size p
    obtain ⟨r, c, hw, -, -⟩ := hs.kept
    refine List.forall_mem_cons.mpr ⟨?_, ih⟩
    rcases memMalloc_spec size hw with ⟨l, n, t, h₁, rfl, heq, hne, -⟩ | ⟨heq, -⟩
    · exact Nat.pos_of_ne_zero fun hzero ↦ hne (BitVec.eq_of_toNat_eq hzero)
    · cases heq.symm.trans hm
  | refuse _ _ ih => exact ih
  | free _ ih =>
    intro e he
    refine ih e ?_
    rcases List.mem_append.mp he with he | he
    · exact List.mem_append_left _ he
    · exact List.mem_append_right _ (List.mem_cons_of_mem _ he)

/-- No two blocks that are held begin at the same place. -/
theorem Served.nodup {b : List (ℕ × ℕ)} (hs : Served h b) : (b.map Prod.fst).Nodup := by
  obtain ⟨r, c, -, hc, hb⟩ := hs.kept
  have hapart := Holds.apart hb ((hc.pairwise_iff fun h ↦ h.symm).mpr (taken_pairwise.imp .inl))
  refine List.pairwise_map.mpr (hapart.imp_of_mem fun {e f} he hf hfar ↦ ?_)
  have hposE := hs.pos e he
  have hposF := hs.pos f hf
  omega

theorem Served.within {b : List (ℕ × ℕ)} (hs : Served h b) : ∀ e ∈ b, e.1 + e.2 ≤ memSizeAligned := by
  obtain ⟨r, c, hw, hc, hb⟩ := hs.kept
  intro e he
  obtain ⟨b₁, b₂, rfl⟩ := List.append_of_mem he
  obtain ⟨c₁, ⟨x, m⟩, c₂, rfl, ⟨hx, hm⟩, -⟩ := forall₂_split hb
  have hmem : (x, m) ∈ taken 0 r := hc.subset (by simp)
  have hle := (taken_within hmem).2
  rw [hw.whole] at hle
  simp only [sizeofStructMem] at *
  omega

/-- What the callers hold lies in the heap, aligned, and apart from one another. -/
theorem heap_blocks_apart {b : List (ℕ × ℕ)} (hs : Served h b) :
    (∀ e ∈ b, 4 ∣ e.1 ∧ sizeofStructMem ≤ e.1 ∧ e.1 + e.2 ≤ memSizeAligned) ∧
      b.Pairwise fun e f ↦ e.1 + e.2 ≤ f.1 ∨ f.1 + f.2 ≤ e.1 := by
  obtain ⟨r, c, hw, hc, hb⟩ := hs.kept
  constructor
  · intro e he
    obtain ⟨b₁, b₂, rfl⟩ := List.append_of_mem he
    obtain ⟨c₁, ⟨x, m⟩, c₂, rfl, ⟨hx, hm⟩, -⟩ := forall₂_split hb
    have hmem : (x, m) ∈ taken 0 r := hc.subset (by simp)
    obtain ⟨l, t, rfl, he⟩ := mem_taken.mp hmem
    have hdvd := hw.dvd
    have hle := (taken_within hmem).2
    rw [hw.whole] at hle
    simp only [sizeofStructMem] at *
    omega
  · exact Holds.apart hb ((hc.pairwise_iff fun h ↦ h.symm).mpr (taken_pairwise.imp .inl))

theorem Served.recovers (hs : Served h []) {size : Word} (hpos : size ≠ 0)
    (hsize : size.toNat + sizeofStructMem ≤ memSizeAligned) :
    (memMalloc size h).1 = some sizeofStructMem := by
  obtain ⟨r, c, hw, hc, hb⟩ := hs.kept
  cases hb
  have hnil := List.nil_perm.mp hc
  rcases hw.merged.of_taken_nil hnil with rfl | hr
  · cases hw.whole
  · rw [hw.whole] at hr
    subst hr
    rcases memMalloc_spec size hw with ⟨l, n, t, h₁, hl, heq, -⟩ | ⟨-, hfail⟩
    · cases l with
      | nil => rw [heq]; rfl
      | cons s l => simp at hl
    · have hblock := toNat_blockSize size (by simp only [memSizeAligned] at hsize; omega)
      simp only [memSizeAligned, sizeofStructMem] at hsize
      exfalso
      rcases hfail with hzero | hlt | htight
      · exact hpos hzero
      · rw [BitVec.lt_def, hblock] at hlt
        omega
      · have hlt := htight (memSizeAligned, false) List.mem_cons_self rfl
        simp only [memSizeAligned, sizeofStructMem, minSizeAligned, hblock] at hlt
        omega

/-- Once all is given back the heap is one free block again: any request that `mem_init` leaves room
for is served. -/
theorem heap_recovers (hs : Served h []) {size : Word} (hpos : size ≠ 0)
    (hsize : size.toNat + sizeofStructMem ≤ memSizeAligned) : (memMalloc size h).1 = some sizeofStructMem :=
  hs.recovers hpos hsize

end Runs

end Enc28j60.Lwip
