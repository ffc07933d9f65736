import Enc28j60.Procedures

namespace Enc28j60.Ring

open Interaction RegisterMap SpiSlave Access Banking DataSheet Boot Operation Procedures CircularMemory
open Interface Quiet

variable {si : Silicon} {c c' : Chip} {gone rs : List Frame} {owed : ℕ} {f : Frame} {x : Cell}

section Layout

/-- Where position `p` of the receive buffer lies once the buffer is laid out. -/
def wrap (p : ℕ) : ℕ := p % 0x1800

/-- The receive buffer lies where the initialisation puts it, and the buffer commands advance
their pointers. -/
structure Laid (c : Chip) : Prop where
  start : c.ptr ERXSTL = 0
  last : c.ptr ERXNDL = 0x17ff
  econ2 : c.econ2 = 0x80

def layoutCells : List Cell :=
  [ERXSTL.cell 0, ERXSTL.cell 1, ERXNDL.cell 0, ERXNDL.cell 1, ECON2.cell 0]

theorem laid_of_fetch (h₁ : fetch ERXSTL c = rxBufferStartAddr) (h₂ : fetch ERXNDL c = rxBufferEndAddr)
    (h₃ : c.econ2 = 0x80) : Laid c := by
  have hptr (r : RegT) (hl : r.length = 2) (hx : ∀ o ∈ [(0 : Byte), 1], r.cell o ∉
      [EPKTCNT.cell 0, ERXWRPTL.cell 0, ERXWRPTL.cell 1]) : c.ptr r = (fetch r c).toNat % memSize := by
    have hpeek (o : Byte) (ho : o ∈ [(0 : Byte), 1]) : c.peek (r.cell o) = c.regs (r.cell o) := by
      have h := hx o ho
      simp only [List.mem_cons, List.not_mem_nil, or_false, not_or] at h
      rw [Chip.peek, if_neg h.1, if_neg h.2.1, if_neg h.2.2]
    rw [fetch, if_pos hl, hpeek 0 (by decide), hpeek 1 (by decide), Chip.ptr]
  refine ⟨?_, ?_, h₃⟩
  · rw [hptr ERXSTL rfl (by decide), h₁]
    rfl
  · rw [hptr ERXNDL rfl (by decide), h₂]
    rfl

theorem Laid.congr (h : Laid c) (hr : ∀ x ∈ layoutCells, c'.regs x = c.regs x) : Laid c' := by
  simp only [layoutCells, List.forall_mem_cons] at hr
  obtain ⟨h₁, h₂, h₃, h₄, h₅, -⟩ := hr
  refine ⟨?_, ?_, ?_⟩
  · rw [Chip.ptr, h₁, h₂]
    exact h.start
  · rw [Chip.ptr, h₃, h₄]
    exact h.last
  · rw [Chip.econ2, h₅]
    exact h.econ2

theorem pointerCells_layout : ∀ x ∈ pointerCells, x ∉ layoutCells := by
  have hall : pointerCells.all fun x ↦ decide (x ∉ layoutCells) := by decide
  simpa only [List.all_eq_true, decide_eq_true_eq] using hall

theorem Laid.setReg (h : Laid c) (hx : x ∉ layoutCells) (b : Byte) : Laid (c.setReg x b) := by
  refine h.congr fun y hy ↦ ?_
  have hne : y ≠ x := fun he ↦ hx (by rwa [← he])
  rw [regs_setReg, if_neg hne]

theorem Laid.put (h : Laid c) {r : RegT} (h₀ : r.cell 0 ∉ layoutCells) (h₁ : r.cell 1 ∉ layoutCells)
    (v : Word) : Laid (put r v c) := (h.setReg h₀ _).setReg h₁ _

theorem Laid.reseat (h : Laid c) (b : BitVec 2) (seen : Byte) : Laid (reseat c b seen) := by
  refine h.congr fun x hx ↦ regs_reseat ?_ b seen
  rintro rfl
  exact absurd hx (by decide)

theorem Laid.ringSize (h : Laid c) : c.ringSize = 0x1800 := by
  rw [Chip.ringSize, h.start, h.last]
  rfl

theorem Laid.ringAddr (h : Laid c) : c.ringAddr = wrap := by
  funext p
  rw [Chip.ringAddr, h.start, h.ringSize, wrap, memSize]
  omega

theorem Laid.ringPos (h : Laid c) (a : Word) : c.ringPos a = a.toNat % memSize := by
  rw [Chip.ringPos, h.start, Nat.sub_zero, Nat.add_mod_right, Nat.mod_mod]

theorem Laid.autoinc (h : Laid c) : c.autoinc = true := by
  rw [Chip.autoinc, h.econ2]
  rfl

theorem circular_wrap : Circular wrap 0x1800 := fun _ _ ↦ Iff.rfl

theorem wrap_lt (p : ℕ) : wrap p < 0x1800 := Nat.mod_lt p (by decide)

theorem wrap_wrap_add (p i : ℕ) : wrap (wrap p + i) = wrap (p + i) := Nat.mod_add_mod p 0x1800 i

theorem toNat_wrap (p : ℕ) : (BitVec.ofNat 16 (wrap p)).toNat = wrap p := by
  have hp := wrap_lt p
  rw [BitVec.toNat_ofNat]
  omega

theorem Laid.ringPos_wrap (h : Laid c) (p : ℕ) : c.ringPos (BitVec.ofNat 16 (wrap p)) = wrap p := by
  have hp := wrap_lt p
  rw [h.ringPos, toNat_wrap, memSize]
  omega

end Layout

section Frames

/-- The buffer that a number of frames take. -/
def extent (fs : List Frame) : ℕ := (fs.map Frame.span).sum

theorem extent_append (fs gs : List Frame) : extent (fs ++ gs) = extent fs + extent gs := by
  simp only [extent, List.map_append, List.sum_append]

theorem extent_singleton (f : Frame) : extent [f] = f.span := by
  simp only [extent, List.map_cons, List.map_nil, List.sum_cons, List.sum_nil, Nat.add_zero]

theorem span_even (f : Frame) : f.span % 2 = 0 := by
  unfold Frame.span
  omega

theorem length_lt_span (f : Frame) : f.bytes.length < f.span := by
  unfold Frame.span
  omega

/-- Every frame starts at an even address. -/
theorem extent_even (fs : List Frame) : extent fs % 2 = 0 := by
  induction fs with
  | nil => rfl
  | cons f fs ih =>
    have hspan := span_even f
    have hcons : extent (f :: fs) = f.span + extent fs := rfl
    omega

/-- What the chip stores for a frame at position `p`. -/
def enc (p : ℕ) (f : Frame) : List Byte := f.header (BitVec.ofNat 16 (wrap (p + f.span))) ++ f.bytes

theorem length_header (next : Word) (f : Frame) : (f.header next).length = 6 := rfl

theorem length_enc (p : ℕ) (f : Frame) : (enc p f).length = 6 + f.bytes.length := by
  rw [enc, List.length_append, length_header]

theorem length_enc_le (p : ℕ) (f : Frame) : (enc p f).length ≤ f.span := by
  rw [length_enc]
  exact Nat.le_add_right _ _

end Frames

section Arrival

/-- The chip takes the frame `f` in. -/
def Accepts (c : Chip) (f : Frame) : Prop :=
  c.rxen ∧ c.epktcnt ≠ 255 ∧ 5 ≤ f.bytes.length ∧ f.span ≤ c.free

theorem arrive_of_not (h : ¬Accepts c f) : c.arrive f = c := if_neg h

theorem Laid.arrive_eq (h : Laid c) (hacc : Accepts c f) : c.arrive f = { c with
    mem := store wrap c.mem (c.erxwrpt.toNat % memSize) (enc (c.erxwrpt.toNat % memSize) f)
    erxwrpt := BitVec.ofNat 16 (wrap (c.erxwrpt.toNat % memSize + f.span))
    epktcnt := c.epktcnt + 1
    accepted := c.accepted ++ [f] } := by
  refine (if_pos hacc).trans ?_
  simp only [h.ringAddr, h.ringPos]
  rfl

/-- The receive side of two chips is the same. -/
structure Alike (x c : Chip) : Prop where
  mem : ∀ a < 0x1800, c.mem a = x.mem a
  erxwrpt : c.erxwrpt = x.erxwrpt
  erxrdpt : c.erxrdpt = x.erxrdpt
  epktcnt : c.epktcnt = x.epktcnt
  accepted : c.accepted = x.accepted

theorem Alike.refl (c : Chip) : Alike c c := ⟨fun _ _ ↦ rfl, rfl, rfl, rfl, rfl⟩

theorem Alike.trans {x y : Chip} (h : Alike x y) (h' : Alike y c) : Alike x c :=
  ⟨fun a ha ↦ (h'.mem a ha).trans (h.mem a ha), h'.erxwrpt.trans h.erxwrpt, h'.erxrdpt.trans h.erxrdpt,
    h'.epktcnt.trans h.epktcnt, h'.accepted.trans h.accepted⟩

theorem Alike.accepts {x : Chip} (h : Alike x c) (hx : Laid x) (hc : Laid c) (hr : c.rxen = x.rxen) :
    Accepts c f ↔ Accepts x f := by
  have hfree : c.free = x.free := by
    rw [Chip.free, Chip.free, hc.ringPos, hc.ringPos, hx.ringPos, hx.ringPos, hc.ringSize, hx.ringSize,
      h.erxrdpt, h.erxwrpt]
  rw [Accepts, Accepts, hr, h.epktcnt, hfree]

/-- Two chips with the same receive side receive alike. -/
theorem Alike.arrive {x : Chip} (h : Alike x c) (hx : Laid x) (hc : Laid c) (hr : c.rxen = x.rxen)
    (f : Frame) : Alike (x.arrive f) (c.arrive f) := by
  by_cases hacc : Accepts c f
  · rw [hc.arrive_eq hacc, hx.arrive_eq ((h.accepts hx hc hr).mp hacc), h.erxwrpt]
    refine ⟨fun a ha ↦ store_agree (h.mem a ha), rfl, h.erxrdpt, ?_, ?_⟩
    · exact congrArg (· + 1) h.epktcnt
    · exact congrArg (· ++ [f]) h.accepted
  · rw [arrive_of_not hacc, arrive_of_not (mt (h.accepts hx hc hr).mpr hacc)]
    exact h

/-- An arrival does not reach behind the receive buffer. -/
theorem Laid.mem_arrive (h : Laid c) (f : Frame) {a : ℕ} (ha : 0x1800 ≤ a) : (c.arrive f).mem a = c.mem a := by
  by_cases hacc : Accepts c f
  · rw [h.arrive_eq hacc]
    refine store_frame fun i _ ↦ ?_
    have hlt := wrap_lt (c.erxwrpt.toNat % memSize + i)
    omega
  · rw [arrive_of_not hacc]

end Arrival

section Invariant

/-- The frames `gone` have been given back and the frames `rs` are in the buffer, one behind the
other; `owed` of the frames given back still count as pending. -/
structure Ringed (gone rs : List Frame) (owed : ℕ) (c : Chip) : Prop where
  accepted : c.accepted = gone ++ rs
  queue : Queue wrap Frame.span enc c.mem (extent gone) rs (extent (gone ++ rs))
  bounds : ∀ f ∈ gone ++ rs, 5 ≤ f.bytes.length ∧ f.span < 0x1800
  room : extent (gone ++ rs) < extent gone + 0x1800
  erxwrpt : c.erxwrpt = BitVec.ofNat 16 (wrap (extent (gone ++ rs)))
  erxrdpt : c.erxrdpt = BitVec.ofNat 16 (wrap (extent gone + 0x17ff))
  epktcnt : c.epktcnt.toNat = rs.length + owed

theorem Ringed.congr (h : Ringed gone rs owed c) (ha : Alike c c') : Ringed gone rs owed c' := by
  refine ⟨?_, h.queue.congr length_enc_le fun i _ _ ↦ ha.mem _ (wrap_lt i), h.bounds, h.room, ?_, ?_, ?_⟩
  · rw [ha.accepted, h.accepted]
  · rw [ha.erxwrpt, h.erxwrpt]
  · rw [ha.erxrdpt, h.erxrdpt]
  · rw [ha.epktcnt, h.epktcnt]

theorem Ringed.le (h : Ringed gone rs owed c) : extent gone ≤ extent (gone ++ rs) := h.queue.le

theorem Ringed.free (h : Ringed gone rs owed c) (hl : Laid c) :
    c.free = extent gone + 0x17ff - extent (gone ++ rs) := by
  have hle := h.le
  have hroom := h.room
  rw [Chip.free, h.erxrdpt, h.erxwrpt, hl.ringPos_wrap, hl.ringPos_wrap, hl.ringSize, wrap, wrap]
  omega

/-- A frame that arrives is stored behind the others, or it is kept out. -/
theorem Ringed.arrive (h : Ringed gone rs owed c) (hl : Laid c) (f : Frame) :
    ∃ new, Ringed gone (rs ++ new) owed (c.arrive f) := by
  by_cases hacc : Accepts c f
  · rw [hl.arrive_eq hacc]
    obtain ⟨-, hcount, hlong, hfree⟩ := hacc
    have hroom := h.room
    have hle := h.le
    have hext : extent (gone ++ (rs ++ [f])) = extent (gone ++ rs) + f.span := by
      rw [← List.append_assoc, extent_append, extent_singleton]
    rw [h.free hl] at hfree
    have hfits : extent (gone ++ rs) + f.span ≤ extent gone + 0x1800 := by omega
    have hpos : c.erxwrpt.toNat % memSize = wrap (extent (gone ++ rs)) := by
      rw [← hl.ringPos, h.erxwrpt, hl.ringPos_wrap]
    have henc : enc (wrap (extent (gone ++ rs))) f = enc (extent (gone ++ rs)) f := by
      rw [enc, wrap_wrap_add, enc]
    rw [hpos, henc, wrap_wrap_add, store_congr fun i ↦ wrap_wrap_add _ i]
    refine ⟨[f], ?_, ?_, ?_, ?_, ?_, h.erxrdpt, ?_⟩
    · change c.accepted ++ [f] = _
      rw [h.accepted, List.append_assoc]
    · rw [hext]
      exact h.queue.push circular_wrap length_enc_le f hfits
    · have hshort : f.span < 0x1800 := by omega
      rw [← List.append_assoc, List.forall_mem_append, List.forall_mem_singleton]
      exact ⟨h.bounds, hlong, hshort⟩
    · rw [hext]
      omega
    · rw [hext]
    · have hlt := c.epktcnt.isLt
      have hne : c.epktcnt.toNat ≠ 255 := fun he ↦ hcount (BitVec.eq_of_toNat_eq he)
      have hcnt := h.epktcnt
      change (c.epktcnt + 1).toNat = _
      rw [BitVec.toNat_add, List.length_append, List.length_singleton]
      change (c.epktcnt.toNat + 1) % 256 = _
      omega
  · rw [arrive_of_not hacc]
    exact ⟨[], by rwa [List.append_nil]⟩

end Invariant

section Reading

theorem ptr_put (r : RegT) (v : Word) (h : r.cell 0 ≠ r.cell 1) :
    (put r v c).ptr r = v.toNat % memSize := by
  rw [Chip.ptr, Operation.put, regs_setReg, if_pos rfl, regs_setReg, if_neg h, regs_setReg, if_pos rfl,
    word_bytes]

theorem ptr_put_wrap (r : RegT) (q : ℕ) (h : r.cell 0 ≠ r.cell 1) :
    (put r (BitVec.ofNat 16 (wrap q)) c).ptr r = wrap q := by
  have hq := wrap_lt q
  rw [ptr_put r _ h, toNat_wrap, memSize]
  omega

/-- The read pointer follows the receive buffer around its end. -/
theorem Laid.readBuf (h : Laid c) {q : ℕ} (hq : c.ptr ERDPTL = wrap q) :
    c.readBuf = (c.mem (wrap q), Operation.put ERDPTL (BitVec.ofNat 16 (wrap (q + 1))) c) := by
  have hnext : (if wrap q = 0x17ff then 0 else (wrap q + 1) % memSize) = wrap (q + 1) := by
    unfold wrap memSize
    split <;> omega
  simp only [Chip.readBuf, h.autoinc, if_true, hq, h.last, h.start, hnext]
  rfl

/-- The frame `f` is next in the buffer, and `k` of the bytes stored for it have been read. -/
def Reading (gone : List Frame) (f : Frame) (k : ℕ) (c : Chip) : Prop :=
  c.ptr ERDPTL = wrap (extent gone + k) ∧ ∃ rs, Ringed gone (f :: rs) 0 c

variable {k : ℕ}

theorem Ringed.mem_eq (h : Ringed gone (f :: rs) owed c) (hk : k < (enc (extent gone) f).length) :
    c.mem (wrap (extent gone + k)) = (enc (extent gone) f)[k] := by
  have hload : load wrap c.mem (extent gone) (enc (extent gone) f).length = enc (extent gone) f := h.queue.1
  have hk' : k < (load wrap c.mem (extent gone) (enc (extent gone) f).length).length := by rwa [hload]
  have hget := getElem_load hk'
  simp only [hload] at hget
  exact hget.symm

theorem alike_setReg (x : Cell) (b : Byte) : Alike c (c.setReg x b) := ⟨fun _ _ ↦ rfl, rfl, rfl, rfl, rfl⟩

theorem alike_reseat (b : BitVec 2) (seen : Byte) : Alike c (reseat c b seen) :=
  ⟨fun _ _ ↦ rfl, rfl, rfl, rfl, rfl⟩

theorem alike_put (r : RegT) (v : Word) : Alike c (put r v c) := ⟨fun _ _ ↦ rfl, rfl, rfl, rfl, rfl⟩

/-- One more byte is copied out. -/
theorem Reading.step (h : Reading gone f k c) (hl : Laid c) (hk : k < (enc (extent gone) f).length) :
    (enc (extent gone) f).take k ++ [c.readBuf.1] = (enc (extent gone) f).take (k + 1) ∧
      Reading gone f (k + 1) c.readBuf.2 := by
  obtain ⟨hp, rs, hr⟩ := h
  rw [hl.readBuf hp, hr.mem_eq hk]
  refine ⟨List.take_append_getElem hk, ?_, rs, hr.congr (alike_put _ _)⟩
  exact ptr_put_wrap ERDPTL _ (by decide)

theorem Reading.arrive (h : Reading gone f k c) (hl : Laid c) (g : Frame) :
    Reading gone f k (c.arrive g) := by
  obtain ⟨hp, rs, hr⟩ := h
  obtain ⟨new, hn⟩ := hr.arrive hl g
  refine ⟨?_, rs ++ new, hn⟩
  rw [Chip.ptr, c.arrive_regs]
  exact hp

end Reading

section Release

/-- Where the frame behind `f` starts. -/
def next (gone : List Frame) (f : Frame) : Word := BitVec.ofNat 16 (wrap (extent gone + f.span))

theorem next_eq : next gone f = BitVec.ofNat 16 (wrap (extent (gone ++ [f]))) := by
  rw [next, extent_append, extent_singleton]

/-- The header the driver reads is the one the chip has written. -/
theorem headerOf_header (v : Word) (f : Frame) :
    headerOf (f.header v) = ⟨v, BitVec.ofNat 16 f.bytes.length, f.status⟩ := by
  have h (w : Word) : (w >>> 8).setWidth 8 ++ w.setWidth 8 = w := word_bytes w
  simp only [headerOf, headerOfBytes, Frame.header, List.getD_cons_zero, List.getD_cons_succ, h]

/-- `ERXRDPT` is given the address in front of the next frame, around the end of the buffer. -/
theorem freedTo_extent (fs : List Frame) :
    freedTo (BitVec.ofNat 16 (wrap (extent fs))) = BitVec.ofNat 16 (wrap (extent fs + 0x17ff)) := by
  have heven := extent_even fs
  have hlt := wrap_lt (extent fs)
  refine BitVec.eq_of_toNat_eq ?_
  rw [toNat_wrap, freedTo]
  split
  next hz =>
    have hzero := congrArg BitVec.toNat hz
    rw [toNat_wrap] at hzero
    change wrap (extent fs) = 0 at hzero
    change 0x17ff = _
    unfold wrap at hzero ⊢
    omega
  next hz =>
    have hpos : wrap (extent fs) ≠ 0 := by
      intro he
      rw [he] at hz
      exact hz rfl
    rw [BitVec.toNat_sub, toNat_wrap]
    change (2 ^ 16 - 1 + wrap (extent fs)) % 2 ^ 16 = _
    unfold wrap at hpos hlt ⊢
    omega

theorem freedTo_next : freedTo (next gone f) = BitVec.ofNat 16 (wrap (extent (gone ++ [f]) + 0x17ff)) := by
  rw [next_eq, freedTo_extent]

/-- The frame that has been copied out is given back, and still counts as pending. -/
theorem Ringed.release (h : Ringed gone (f :: rs) 0 c) (v : Word) :
    Ringed (gone ++ [f]) rs 1 (release (freedTo (next gone f)) (put ERDPTL v c)) := by
  have happ : gone ++ [f] ++ rs = gone ++ f :: rs := by rw [List.append_assoc, List.singleton_append]
  have hext : extent (gone ++ [f]) = extent gone + f.span := by rw [extent_append, extent_singleton]
  have hroom := h.room
  have hqueue : Queue wrap Frame.span enc c.mem (extent gone + f.span) rs (extent (gone ++ f :: rs)) :=
    h.queue.2
  refine ⟨?_, ?_, ?_, ?_, ?_, freedTo_next, ?_⟩
  · rw [happ]
    exact h.accepted
  · rw [happ, hext]
    exact hqueue
  · rw [happ]
    exact h.bounds
  · rw [happ, hext]
    omega
  · rw [happ]
    exact h.erxwrpt
  · exact h.epktcnt

theorem Ringed.decrement (h : Ringed gone rs 1 c) :
    Ringed gone rs 0 { c with epktcnt := c.epktcnt - 1 } := by
  refine ⟨h.accepted, h.queue, h.bounds, h.room, h.erxwrpt, h.erxrdpt, ?_⟩
  have hlt := c.epktcnt.isLt
  have hcount := h.epktcnt
  rw [BitVec.toNat_sub]
  change (2 ^ 8 - 1 + c.epktcnt.toNat) % 2 ^ 8 = _
  omega

end Release

end Enc28j60.Ring
