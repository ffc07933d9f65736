import Enc28j60.Ring

namespace Enc28j60.Reception

open Interaction RegisterMap SpiSlave Port LowLayer Interface Access Banking DataSheet Transfers
open Quiet Boot Operation Procedures Enc28j60.Ring

variable {E : Type} {ev : E → Chip → Chip} {tot : Prop} {si : Silicon} {c c' : Chip} {d : Enc28j60T}
  {gone rs : List Frame} {owed k : ℕ} {f : Frame} {seen : List Byte} {X R : Chip → Prop} {x : Cell}

/-- How many packets have been found pending. -/
def taken (c : Chip) : ℕ := (c.pktcntSeen.filter (· ≠ 0)).length

/-- The frames given back are `gone`, or one more while a packet is being taken out. -/
def Kept (gone : List Frame) (c : Chip) : Prop :=
  (gone.length ≤ taken c ∧ ∃ rs, Ringed gone rs 0 c) ∨
    (gone.length < taken c ∧ ∃ f rs owed, Ringed (gone ++ [f]) rs owed c)

theorem Kept.congr (h : Kept gone c) (ha : Alike c c') (hs : c'.pktcntSeen = c.pktcntSeen) : Kept gone c' := by
  have ht : taken c' = taken c := by rw [taken, hs, taken]
  rcases h with ⟨hn, rs, hr⟩ | ⟨hn, f, rs, owed, hr⟩
  · exact .inl ⟨by rwa [ht], rs, hr.congr ha⟩
  · exact .inr ⟨by rwa [ht], f, rs, owed, hr.congr ha⟩

/-- The buffer is watched: every byte is copied while the frame it belongs to has not been given
back, and no more than that frame is given back. -/
def vigil (gone : List Frame) : Watch where
  always c := Laid c ∧ Kept gone c
  start _ := True
  copy c := ∃ f rs, Ringed gone (f :: rs) 0 c
  release b c := ∃ f rs, Ringed gone (f :: rs) 0 c ∧
    word b (c.regs (ERXRDPTL.cell 0)) = freedTo (next gone f)
  setReg x hx b _ h := ⟨h.1.setReg (pointerCells_layout x hx) b, h.2.congr (alike_setReg x b) rfl⟩

section Stages

/-- What is known of the rest of the chip while a packet is being received: it may concern the
memory, what has been accepted and what has been sent, and `ECON1` but for the bank. -/
structure Aside (ev : E → Chip → Chip) (X : Chip → Prop) : Prop where
  event : ∀ e c, c.txrts = false → X c → X (ev e c)
  same : ∀ c c', c'.mem = c.mem → c'.accepted = c.accepted → c'.sent = c.sent →
    c'.econ1 &&& 0xFC = c.econ1 &&& 0xFC → X c → X c'

/-- What is known of the receive side: it survives arrivals and all that leaves that side and the
read pointer alone. -/
structure Stage (gone : List Frame) (n : ℕ) (R : Chip → Prop) : Prop where
  congr : ∀ c c', Alike c c' → c'.ptr ERDPTL = c.ptr ERDPTL → R c → R c'
  arrive : ∀ c f, Laid c → R c → R (c.arrive f)
  kept : ∀ c, taken c = gone.length + n → R c → Kept gone c

/-- The chip is laid out and idle, the counts read so far are `seen`, and `X` and `R` hold. -/
structure Under (seen : List Byte) (X R : Chip → Prop) (c : Chip) : Prop where
  laid : Laid c
  idle : c.txrts = false
  counts : c.pktcntSeen = seen
  aside : X c
  stage : R c

theorem regs_event {e : Event} (h : c.txrts = false) : (e.act si c).regs = c.regs := by
  cases e with
  | arrive f => exact c.arrive_regs f
  | txDone => simp only [Event.act, h, Bool.false_eq_true, if_false]

theorem counts_arrive (f : Frame) : (c.arrive f).pktcntSeen = c.pktcntSeen := by
  unfold Chip.arrive
  split <;> rfl

theorem counts_event (e : Event) : (e.act si c).pktcntSeen = c.pktcntSeen := by
  cases e with
  | arrive f => exact counts_arrive f
  | txDone =>
    simp only [Event.act]
    split <;> rfl

theorem Under.workable {n : ℕ} (hev : Acts si ev) (hX : Aside ev X) (hR : Stage gone n R)
    (hn : (seen.filter (· ≠ 0)).length = gone.length + n) : Workable (vigil gone) ev (Under seen X R) := by
  refine ⟨fun e c h ↦ ?_, fun c h ↦ h.idle, fun c b s h ↦ ?_, fun c h ↦ ?_⟩
  · have hx := hX.event e c h.idle h.aside
    obtain ⟨e', he⟩ := hev e
    rw [he] at hx ⊢
    have hregs : (e'.act si c).regs = c.regs := regs_event h.idle
    refine ⟨h.laid.congr fun x _ ↦ congrFun hregs x, ?_, (counts_event e').trans h.counts, hx, ?_⟩
    · rw [Chip.txrts, Chip.econ1, hregs]
      exact h.idle
    · cases e' with
      | arrive f => exact hR.arrive c f h.laid h.stage
      | txDone =>
        simp only [Event.act, h.idle, Bool.false_eq_true, if_false]
        exact h.stage
  · refine ⟨h.laid.reseat b s, (txrts_reseat b s).trans h.idle, h.counts,
      hX.same c _ rfl rfl rfl ?_ h.aside, hR.congr _ _ (alike_reseat b s) ?_ h.stage⟩
    · rw [econ1_reseat, (txrts_mask _ _).2.2]
    rw [Chip.ptr, regs_reseat (by decide), regs_reseat (by decide), Chip.ptr]
  · have ht : taken c = gone.length + n := by rw [taken, h.counts, hn]
    exact ⟨h.laid, hR.kept c ht h.stage⟩

theorem Under.put {S : Chip → Prop} (h : Under seen X R c) (hX : Aside ev X) {r : RegT} (hr : Pointer r)
    (v : Word) (hS : R c → S (put r v c)) : Under seen X S (put r v c) := by
  obtain ⟨h₀, h₁⟩ := pointer_cells hr
  have hecon1 : (Operation.put r v c).econ1 = c.econ1 := by
    rw [Operation.put, Chip.econ1_setReg_of_ne (pointerCells_econ1 h₁),
      Chip.econ1_setReg_of_ne (pointerCells_econ1 h₀)]
  refine ⟨h.laid.put (pointerCells_layout _ h₀) (pointerCells_layout _ h₁) v, ?_, h.counts,
    hX.same c _ rfl rfl rfl (congrArg (· &&& 0xFC) hecon1) h.aside, hS h.stage⟩
  rw [Chip.txrts, hecon1]
  exact h.idle

/-- A packet has been found pending. -/
def Later (seen : List Byte) (X R : Chip → Prop) (c : Chip) : Prop :=
  ∃ b : Byte, b ≠ 0 ∧ Under (seen ++ [b]) X R c

theorem Later.workable (hev : Acts si ev) (hX : Aside ev X) (hR : Stage gone 1 R)
    (hn : (seen.filter (· ≠ 0)).length = gone.length) : Workable (vigil gone) ev (Later seen X R) := by
  have hw (b : Byte) (hb : b ≠ 0) : Workable (vigil gone) ev (Under (seen ++ [b]) X R) := by
    refine Under.workable hev hX hR ?_
    rw [List.filter_append, List.length_append, hn, List.filter_cons_of_pos (by simpa using hb)]
    rfl
  refine ⟨?_, ?_, ?_, ?_⟩
  · rintro e c ⟨b, hb, h⟩
    exact ⟨b, hb, (hw b hb).keeps e c h⟩
  · rintro c ⟨b, hb, h⟩
    exact h.idle
  · rintro c k s ⟨b, hb, h⟩
    exact ⟨b, hb, (hw b hb).reseat c k s h⟩
  · rintro c ⟨b, hb, h⟩
    exact (hw b hb).watched c h

/-- Before a packet is read: `b` is the count found, and the read pointer still stands at `e`. -/
def Counted (gone : List Frame) (e : ℕ) (b : Byte) (c : Chip) : Prop :=
  c.ptr ERDPTL = e ∧ ∃ rs, (b ≠ 0 → rs ≠ []) ∧ Ringed gone rs 0 c

theorem stage_counted {e n : ℕ} {b : Byte} : Stage gone n (Counted gone e b) := by
  refine ⟨?_, ?_, ?_⟩
  · rintro c c' ha hp ⟨he, rs, hb, hr⟩
    exact ⟨hp.trans he, rs, hb, hr.congr ha⟩
  · rintro c f hl ⟨he, rs, hb, hr⟩
    obtain ⟨new, hn⟩ := hr.arrive hl f
    refine ⟨?_, rs ++ new, fun h₀ ↦ List.append_ne_nil_of_left_ne_nil (hb h₀) new, hn⟩
    rw [Chip.ptr, c.arrive_regs]
    exact he
  · rintro c ht ⟨-, rs, -, hr⟩
    exact .inl ⟨by omega, rs, hr⟩

theorem Stage.and {n : ℕ} (h : Stage gone n R) (p : Prop) : Stage gone n fun c ↦ R c ∧ p :=
  ⟨fun c c' ha hp hr ↦ ⟨h.congr c c' ha hp hr.1, hr.2⟩, fun c f hl hr ↦ ⟨h.arrive c f hl hr.1, hr.2⟩,
    fun c ht hr ↦ h.kept c ht hr.1⟩

/-- The header structure of the driver once it has read the header of `f`. -/
def rxHeader (gone : List Frame) (f : Frame) : EthRxHeaderT :=
  ⟨next gone f, BitVec.ofNat 16 f.bytes.length, f.status⟩

def Heading (gone : List Frame) (l : List Byte) (c : Chip) : Prop :=
  ∃ f, l = (enc (extent gone) f).take l.length ∧ Reading gone f l.length c

def Copying (gone : List Frame) (hdr : EthRxHeaderT) (l : List Byte) (c : Chip) : Prop :=
  ∃ f, hdr = rxHeader gone f ∧ l = f.bytes.take l.length ∧ Reading gone f (6 + l.length) c

def Released (gone : List Frame) (owed : ℕ) (hdr : EthRxHeaderT) (l : List Byte) (c : Chip) : Prop :=
  ∃ f rs, hdr = rxHeader gone f ∧ l = f.bytes.take l.length ∧ Ringed (gone ++ [f]) rs owed c

theorem Reading.congr (h : Reading gone f k c) (ha : Alike c c') (hp : c'.ptr ERDPTL = c.ptr ERDPTL) :
    Reading gone f k c' := by
  obtain ⟨hq, rs, hr⟩ := h
  exact ⟨hp.trans hq, rs, hr.congr ha⟩

theorem Reading.kept {n : ℕ} (h : Reading gone f k c) (ht : taken c = gone.length + n) : Kept gone c := by
  obtain ⟨-, rs, hr⟩ := h
  exact .inl ⟨by omega, f :: rs, hr⟩

theorem stage_heading {n : ℕ} {l : List Byte} : Stage gone n (Heading gone l) := by
  refine ⟨?_, ?_, ?_⟩
  · rintro c c' ha hp ⟨f, hf, h⟩
    exact ⟨f, hf, Reading.congr h ha hp⟩
  · rintro c g hl ⟨f, hf, h⟩
    exact ⟨f, hf, h.arrive hl g⟩
  · rintro c ht ⟨f, -, h⟩
    exact Reading.kept h ht

theorem stage_copying {n : ℕ} {hdr : EthRxHeaderT} {l : List Byte} : Stage gone n (Copying gone hdr l) := by
  refine ⟨?_, ?_, ?_⟩
  · rintro c c' ha hp ⟨f, hf, hb, h⟩
    exact ⟨f, hf, hb, Reading.congr h ha hp⟩
  · rintro c g hl ⟨f, hf, hb, h⟩
    exact ⟨f, hf, hb, h.arrive hl g⟩
  · rintro c ht ⟨f, -, -, h⟩
    exact Reading.kept h ht

theorem stage_released {hdr : EthRxHeaderT} {l : List Byte} : Stage gone 1 (Released gone owed hdr l) := by
  refine ⟨?_, ?_, ?_⟩
  · rintro c c' ha - ⟨f, rs, hf, hb, h⟩
    exact ⟨f, rs, hf, hb, h.congr ha⟩
  · rintro c g hl ⟨f, rs, hf, hb, h⟩
    obtain ⟨new, hn⟩ := h.arrive hl g
    exact ⟨f, rs ++ new, hf, hb, hn⟩
  · rintro c ht ⟨f, rs, -, -, h⟩
    exact .inr ⟨by omega, f, rs, owed, h⟩

/-- The length the driver computes from a byte count that the chip has stored. -/
theorem payloadLength_eq {n : ℕ} (h : 5 ≤ n) (h' : n < 0x1800) (maxlen : Word) :
    (payloadLength (BitVec.ofNat 16 n) maxlen).toNat = min (n - 4) maxlen.toNat := by
  have hn : (BitVec.ofNat 16 n).toNat = n := by
    rw [BitVec.toNat_ofNat]
    omega
  have hfour : (4 : Word) < BitVec.ofNat 16 n := by
    rw [BitVec.lt_def, hn]
    exact h
  have hsub : (BitVec.ofNat 16 n - 4).toNat = n - 4 := by
    rw [BitVec.toNat_sub, hn]
    change (2 ^ 16 - 4 + n) % 2 ^ 16 = _
    omega
  simp only [payloadLength, hfour, if_true, BitVec.lt_def, hsub]
  split
  · omega
  · rw [hsub]
    omega

theorem Under.readBuf {S : Chip → Prop} (h : Under seen X R c) (hX : Aside ev X)
    (hr : Reading gone f k c) (hS : S c.readBuf.2) : Under seen X S c.readBuf.2 := by
  rw [h.laid.readBuf hr.1] at hS ⊢
  exact h.put hX (show Pointer ERDPTL by decide) _ fun _ ↦ hS

theorem Under.release {S : Chip → Prop} (h : Under seen X R c) (hX : Aside ev X) (v : Word)
    (hS : S (release v c)) : Under seen X S (release v c) := by
  have hlaid : Laid (Operation.put ERXRDPTL v c) := h.laid.put (by decide) (by decide) v
  have hecon1 : (Operation.release v c).econ1 = c.econ1 := by
    change (Operation.put ERXRDPTL v c).econ1 = c.econ1
    rw [Operation.put, Chip.econ1_setReg_of_ne (by decide), Chip.econ1_setReg_of_ne (by decide)]
  refine ⟨hlaid.congr fun _ _ ↦ rfl, ?_, h.counts,
    hX.same c _ rfl rfl rfl (congrArg (· &&& 0xFC) hecon1) h.aside, hS⟩
  rw [Chip.txrts, hecon1]
  exact h.idle

theorem take_enc (p n : ℕ) (f : Frame) : (enc p f).take (6 + n) =
    f.header (BitVec.ofNat 16 (wrap (p + f.span))) ++ f.bytes.take n := by
  have htake (l : List Byte) : (l ++ f.bytes).take (l.length + n) = l ++ f.bytes.take n :=
    List.take_length_add_append n
  exact htake (f.header _)

/-- One more byte of the payload. -/
theorem Copying.step {hdr : EthRxHeaderT} {l : List Byte} {maxlen : Word} (h : Copying gone hdr l c)
    (hl : Laid c) (hlen : l.length < (payloadLength hdr.byteCount maxlen).toNat) :
    ∃ f, Reading gone f (6 + l.length) c ∧ Copying gone hdr (l ++ [c.readBuf.1]) c.readBuf.2 := by
  obtain ⟨f, rfl, hb, hr⟩ := h
  obtain ⟨-, rs, hring⟩ := id hr
  obtain ⟨hlong, hshort⟩ := hring.bounds f (List.mem_append_right _ List.mem_cons_self)
  rw [rxHeader, payloadLength_eq hlong (Nat.lt_trans (length_lt_span f) hshort)] at hlen
  have hk : 6 + l.length < (enc (extent gone) f).length := by
    rw [length_enc]
    omega
  obtain ⟨htake, hstep⟩ := hr.step hl hk
  rw [take_enc, Nat.add_assoc, take_enc, List.append_assoc, List.append_cancel_left_eq, ← hb] at htake
  refine ⟨f, hr, f, rfl, ?_, ?_⟩
  · rw [List.length_append, List.length_singleton]
    exact htake
  · rw [List.length_append, List.length_singleton]
    exact hstep

theorem Heading.step {l : List Byte} (h : Heading gone l c) (hl : Laid c) (hlen : l.length < 6) :
    ∃ f, Reading gone f l.length c ∧ Heading gone (l ++ [c.readBuf.1]) c.readBuf.2 := by
  obtain ⟨f, hb, hr⟩ := h
  have hk : l.length < (enc (extent gone) f).length := by
    rw [length_enc]
    omega
  obtain ⟨htake, hstep⟩ := hr.step hl hk
  rw [← hb] at htake
  refine ⟨f, hr, f, ?_, ?_⟩
  · rw [List.length_append, List.length_singleton]
    exact htake
  · rw [List.length_append, List.length_singleton]
    exact hstep

/-- Once the header is read the driver knows the frame's length and where the next one starts. -/
theorem Heading.parse {l : List Byte} (h : Heading gone l c) (hlen : l.length = 6) :
    Copying gone (headerOf l) [] c := by
  obtain ⟨f, hb, hr⟩ := h
  rw [hlen] at hb hr
  refine ⟨f, ?_, rfl, hr⟩
  have hhead : l = f.header (next gone f) := by
    rw [hb]
    exact (take_enc (extent gone) 0 f).trans (List.append_nil _)
  rw [hhead, headerOf_header]
  rfl

/-- The stages of receiving; `emptied` is what is known once the driver has found no packet. -/
theorem receives {emptied : Prop} (hev : Acts si ev) (hX : Aside ev X)
    (hn : (seen.filter (· ≠ 0)).length = gone.length)
    (hd : d.nextRxPacketPtr = BitVec.ofNat 16 (wrap (extent gone))) (maxlen : Word) (e : ℕ)
    (hnone : ∀ c, X c → c.accepted = gone → emptied) :
    Receives (vigil gone) ev d maxlen (Under seen X (Counted gone e 0))
      (fun b ↦ Under (seen ++ [b]) X fun c ↦ Counted gone e b c ∧ (b = 0 → emptied)) (fun l ↦ Later seen X (Heading gone l))
      (fun hdr l ↦ Later seen X (Copying gone hdr l)) (fun hdr l ↦ Later seen X (Released gone 1 hdr l))
      (fun hdr l ↦ Later seen X (Released gone 0 hdr l)) where
  start := Under.workable hev hX (stage_counted (n := 0)) hn
  counted b := by
    refine Under.workable hev hX ((stage_counted (n := ([b].filter (· ≠ 0)).length)).and _) ?_
    rw [List.filter_append, List.length_append, hn]
  count c h := by
    obtain ⟨he, rs, -, hr⟩ := h.stage
    refine ⟨h.laid.congr fun _ _ ↦ rfl, h.idle, ?_, hX.same c _ rfl rfl rfl rfl h.aside, ⟨he, rs, ?_,
      hr.congr ⟨fun _ _ ↦ rfl, rfl, rfl, rfl, rfl⟩⟩, fun hb ↦ hnone c h.aside ?_⟩
    · change c.pktcntSeen ++ [c.epktcnt] = _
      rw [h.counts]
    · rintro hb rfl
      exact hb (BitVec.eq_of_toNat_eq hr.epktcnt)
    · have hcount := hr.epktcnt
      rw [hb] at hcount
      rw [hr.accepted, List.eq_nil_of_length_eq_zero hcount.symm, List.append_nil]
  header _ := Later.workable hev hX stage_heading hn
  payload _ _ := Later.workable hev hX stage_copying hn
  released _ _ := Later.workable hev hX stage_released hn
  final _ _ := (Later.workable hev hX stage_released hn).keeps
  autoinc := by
    refine ⟨?_, ?_⟩
    · rintro c ⟨b, -, h⟩
      exact h.laid.autoinc
    · rintro hdr c ⟨b, -, h⟩
      exact h.laid.autoinc
  seek b hb c h := by
    refine ⟨b, hb, h.put hX (show Pointer ERDPTL by decide) _ ?_⟩
    rintro ⟨⟨-, rs, hrs, hr⟩, -⟩
    obtain ⟨f, rs, rfl⟩ := List.exists_cons_of_ne_nil (hrs hb)
    refine ⟨f, rfl, ?_, rs, hr.congr (alike_put _ _)⟩
    rw [hd]
    exact ptr_put_wrap ERDPTL _ (by decide)
  copyHeader l hlen c h := by
    obtain ⟨b, hb, h⟩ := h
    obtain ⟨f, hr, hstep⟩ := Heading.step h.stage h.laid hlen
    exact ⟨⟨f, hr.2⟩, b, hb, h.readBuf hX hr hstep⟩
  parse l hlen c h := by
    obtain ⟨b, hb, h⟩ := h
    exact ⟨b, hb, h.laid, h.idle, h.counts, h.aside, Heading.parse h.stage hlen⟩
  copyPayload hdr l hlen c h := by
    obtain ⟨b, hb, h⟩ := h
    obtain ⟨f, hr, hstep⟩ := Copying.step h.stage h.laid hlen
    exact ⟨⟨f, hr.2⟩, b, hb, h.readBuf hX hr hstep⟩
  release hdr l hlen c h := by
    obtain ⟨b, hb, h⟩ := h
    obtain ⟨f, rfl, hbytes, hread⟩ := id h.stage
    obtain ⟨-, rs, hr⟩ := hread
    refine ⟨⟨f, rs, (hr.congr (alike_put _ _)).congr (alike_setReg _ _), ?_⟩, b, hb, ?_⟩
    · rw [regs_setReg, if_pos rfl, word_bytes]
      rfl
    · have hseek : Under (seen ++ [b]) X (fun _ ↦ True) (put ERDPTL (next gone f) c) :=
        h.put hX (show Pointer ERDPTL by decide) _ fun _ ↦ trivial
      exact hseek.release hX _ ⟨f, rs, rfl, hbytes, hr.release _⟩
  decrement hdr l c h := by
    obtain ⟨b, hb, h⟩ := h
    obtain ⟨f, rs, hf, hbytes, hr⟩ := id h.stage
    exact ⟨h.laid.econ2, b, hb, h.laid.congr fun _ _ ↦ rfl, h.idle, h.counts,
      hX.same c _ rfl rfl rfl rfl h.aside, f, rs, hf, hbytes, hr.decrement⟩

end Stages

end Enc28j60.Reception
