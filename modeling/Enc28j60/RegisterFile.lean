import Enc28j60.Banking

namespace Enc28j60.RegisterFile

open Function Interaction RegisterMap SpiSlave Port LowLayer Access Banking

/-- A chip that is nothing but control registers, as plain storage. -/
def plain (dummy : (Cell → Byte) → Byte) : Device (Cell → Byte) where
  bsel m := (m (ECON1.cell 0)).setWidth 2
  dummy := dummy
  readCell x m := (m x, m)
  writeCell x b m := Function.update m x b
  setBits x b m := Function.update m x (m x ||| b)
  clearBits x b m := Function.update m x (m x &&& ~~~b)
  readBuf m := (0, m)
  writeBuf _ m := m
  reset _ := fun _ ↦ 0

/-- The registers of the map that are reached by address. -/
abbrev ControlReg := {r : RegT // r ∈ registerMap ∧ r.type ≠ .phyR}

/-- The bits of a register that the file keeps. `BSEL` is kept apart. -/
def kept (r : RegT) : Word :=
  if r = ECON1 then 0x00FC else if r.length = 2 then 0xFFFF else 0x00FF

/-- The registers without banks, and the bank select. -/
@[ext]
structure File where
  regs : ControlReg → Word
  bsel : BitVec 2

namespace File

variable (f : File) (r : ControlReg)

def select : File := { f with bsel := if r.1.bank = .common then f.bsel else r.1.bank.bits }

def get : Word := f.regs r ||| if r.1 = ECON1 then f.bsel.setWidth 16 else 0

def put (v : Word) : File := { f with regs := Function.update f.regs r (v &&& kept r.1) }

end File

inductive Access
  | write (r : ControlReg) (value : Word)
  | read (r : ControlReg)
  | set (r : ControlReg) (mask : Byte)
  | clear (r : ControlReg) (mask : Byte)

namespace Access

/-- The driver's function for the access. -/
def run : Access → Drv (Option Word)
  | .write r v => do
    enc28j60WriteReg r.1 v
    pure none
  | .read r => do
    let v ← enc28j60ReadReg r.1
    pure (some v)
  | .set r m => do
    enc28j60BitfieldSet r.1 m
    pure none
  | .clear r m => do
    enc28j60BitfieldClear r.1 m
    pure none

/-- What the access means for the file. -/
def step : Access → File → Option Word × File
  | .write r v, f => (none, (f.select r).put r v)
  | .read r, f => (some ((f.select r).get r), f.select r)
  | .set r m, f =>
    if r.1.type = .ethR then (none, (f.select r).put r ((f.select r).get r ||| m.setWidth 16))
    else (none, f)
  | .clear r m, f =>
    if r.1.type = .ethR then (none, (f.select r).put r ((f.select r).get r &&& ~~~m.setWidth 16))
    else (none, f)

/-- An access to `ECON1` leaves the bank select as it is. -/
def KeepsBank : Access → File → Prop
  | .write r v, f => r.1 = ECON1 → v.setWidth 2 = f.bsel
  | .read _, _ => True
  | .set r m, f => r.1 = ECON1 → f.bsel ||| m.setWidth 2 = f.bsel
  | .clear r m, f => r.1 = ECON1 → f.bsel &&& ~~~m.setWidth 2 = f.bsel

end Access

def run : List Access → Drv (List (Option Word))
  | [] => pure []
  | a :: as => do
    let v ← a.run
    let vs ← run as
    pure (v :: vs)

def steps : List Access → File → List (Option Word) × File
  | [], f => ([], f)
  | a :: as, f =>
    let r := steps as (a.step f).2
    ((a.step f).1 :: r.1, r.2)

def KeepBank : List Access → File → Prop
  | [], _ => True
  | a :: as, f => a.KeepsBank f ∧ KeepBank as (a.step f).2

/-- The value a register has in the storage. -/
def value (r : RegT) (m : Cell → Byte) : Word :=
  if r.length = 2 then word (m (r.cell 1)) (m (r.cell 0)) else (m (r.cell 0)).setWidth 16

/-- The file that a storage stands for. -/
def file (m : Cell → Byte) : File where
  regs r := value r.1 m &&& kept r.1
  bsel := (m (ECON1.cell 0)).setWidth 2

/-- Writing a value byte by byte. -/
def store (r : RegT) (v : Word) (m : Cell → Byte) : Cell → Byte :=
  let m' := Function.update m (r.cell 0) (v.setWidth 8)
  if r.length = 2 then Function.update m' (r.cell 1) ((v >>> 8).setWidth 8) else m'

/-- `m` stands for `f`, and the cells of no register are as in `m₀`. -/
structure Rep (m₀ : Cell → Byte) (f : File) (m : Cell → Byte) : Prop where
  file : file m = f
  rest : ∀ x, (∀ r : ControlReg, x ∉ r.1.cells) → m x = m₀ x

section Storage

variable {m m₀ : Cell → Byte} {f : File} {r : ControlReg}

/-- No two control registers share a byte. -/
theorem cells_nodup : ((registerMap.filter (·.type != .phyR)).flatMap RegT.cells).Nodup := by
  decide +kernel

theorem cells_apart {r r' : ControlReg} (h : r ≠ r') : ∀ x ∈ r.1.cells, x ∉ r'.1.cells := by
  have hmem (r : ControlReg) : r.1 ∈ registerMap.filter (·.type != .phyR) :=
    List.mem_filter.mpr ⟨r.2.1, by simpa using r.2.2⟩
  have hpair := (List.nodup_flatMap.mp cells_nodup).2
  have : Std.Symm (List.Disjoint on RegT.cells) := ⟨fun _ _ h _ hx hx' ↦ h hx' hx⟩
  intro x hx hx'
  exact hpair.forall (hmem r) (hmem r') (fun he ↦ h (Subtype.ext he)) hx hx'

theorem cell_zero_mem (r : RegT) : r.cell 0 ∈ r.cells := by
  unfold RegT.cells
  split <;> exact List.mem_cons_self

theorem cell_one_mem {r : RegT} (h : r.length = 2) : r.cell 1 ∈ r.cells := by
  rw [RegT.cells, if_pos h]
  exact List.mem_cons_of_mem _ List.mem_cons_self

theorem value_congr {r : RegT} {m m' : Cell → Byte} (h : ∀ x ∈ r.cells, m x = m' x) :
    value r m = value r m' := by
  have h₀ := h _ (cell_zero_mem r)
  by_cases hl : r.length = 2
  · rw [value, value, if_pos hl, if_pos hl, h₀, h _ (cell_one_mem hl)]
  · rw [value, value, if_neg hl, if_neg hl, h₀]

theorem store_frame {r : RegT} {x : Cell} (h : x ∉ r.cells) (v : Word) : store r v m x = m x := by
  have h₀ : x ≠ r.cell 0 := fun he ↦ h (he ▸ cell_zero_mem r)
  unfold store
  split
  next hl =>
    have h₁ : x ≠ r.cell 1 := fun he ↦ h (he ▸ cell_one_mem hl)
    rw [Function.update_of_ne h₁, Function.update_of_ne h₀]
  next => exact Function.update_of_ne h₀ _ _

theorem cells_ne : ∀ r ∈ registerMap, r.type ≠ .phyR → r.length = 2 → r.cell 0 ≠ r.cell 1 := by
  decide

theorem value_store (v : Word) : value r.1 (store r.1 v m) =
    if r.1.length = 2 then v else (v.setWidth 8).setWidth 16 := by
  by_cases hl : r.1.length = 2
  · rw [value, store, if_pos hl, if_pos hl, if_pos hl, Function.update_self,
      Function.update_of_ne (cells_ne r.1 r.2.1 r.2.2 hl), Function.update_self, word_bytes]
  · rw [value, store, if_neg hl, if_neg hl, if_neg hl, Function.update_self]

theorem low_eq (v : Word) : (v.setWidth 8).setWidth 16 = v &&& (0x00FF : Word) := by
  calc (v.setWidth 8).setWidth 16 = word ((v >>> 8).setWidth 8) (v.setWidth 8) &&& (0x00FF : Word) :=
        (word_and_low _ _).symm
    _ = v &&& (0x00FF : Word) := by rw [word_bytes]

theorem value_store_kept (v : Word) : value r.1 (store r.1 v m) &&& kept r.1 = v &&& kept r.1 := by
  rw [value_store]
  by_cases hl : r.1.length = 2
  · rw [if_pos hl]
  · rw [if_neg hl, low_eq, BitVec.and_assoc, kept, if_neg hl]
    split <;> rfl

theorem regs_store (v : Word) :
    (file (store r.1 v m)).regs = Function.update (file m).regs r (v &&& kept r.1) := by
  funext r'
  by_cases h : r' = r
  · subst h
    rw [Function.update_self]
    exact value_store_kept v
  · rw [Function.update_of_ne h]
    refine congrArg (· &&& kept r'.1) (value_congr fun x hx ↦ store_frame ?_ v)
    exact cells_apart h x hx

theorem bsel_store (v : Word) : (file (store r.1 v m)).bsel =
    if r.1 = ECON1 then v.setWidth 2 else (file m).bsel := by
  by_cases h : r.1 = ECON1
  · have hs : store ECON1 v m (ECON1.cell 0) = v.setWidth 8 := by
      rw [store, if_neg (by decide), Function.update_self]
    rw [if_pos h, h, file, hs, BitVec.setWidth_setWidth_of_le v (by decide)]
  · rw [if_neg h, file, store_frame]
    · rfl
    · have hne : (⟨ECON1, by decide⟩ : ControlReg) ≠ r := fun he ↦ h (congrArg Subtype.val he).symm
      exact cells_apart hne _ (cell_zero_mem _)

/-- A register that is written is the only one to change. -/
theorem file_store {v : Word} (h : r.1 = ECON1 → v.setWidth 2 = (file m).bsel) :
    file (store r.1 v m) = (file m).put r v := by
  refine File.ext (regs_store v) ((bsel_store v).trans ?_)
  split
  next hr => exact h hr
  next => rfl

theorem econ1_bits : ∀ v : Byte,
    v.setWidth 16 &&& (0x00FC : Word) ||| (v.setWidth 2).setWidth 16 = v.setWidth 16 := by
  decide

theorem get_file : (file m).get r = value r.1 m := by
  have hget : (file m).get r = value r.1 m &&& kept r.1 |||
      if r.1 = ECON1 then (file m).bsel.setWidth 16 else 0 := rfl
  rw [hget, kept]
  by_cases h : r.1 = ECON1
  · have hv : value ECON1 m = (m (ECON1.cell 0)).setWidth 16 := rfl
    rw [if_pos h, if_pos h, h, hv]
    exact econ1_bits _
  · rw [if_neg h, if_neg h]
    refine BitVec.or_zero.trans ?_
    by_cases hl : r.1.length = 2
    · rw [if_pos hl]
      exact BitVec.and_allOnes
    · have hb (b : Byte) : (b.setWidth 16).setWidth 8 = b := by
        rw [BitVec.setWidth_setWidth_of_le _ (by decide), BitVec.setWidth_eq]
      rw [if_neg hl, value, if_neg hl, ← low_eq, hb]

end Storage

section Simulation

variable {y : (Cell → Byte) → Byte} {m m₀ : Cell → Byte} {f : File} {d : Enc28j60T} {r : ControlReg}

/-- Storage does nothing on its own. -/
def idle : Empty → (Cell → Byte) → Cell → Byte := nofun

/-- The plain chip by itself, under any guard. -/
def shelf (y : (Cell → Byte) → Byte) : Setting (Cell → Byte) Empty :=
  ⟨plain y, idle, .anything, True⟩

theorem shelf_stable (P : (Cell → Byte) → Prop) : (shelf y).Stable P := nofun

theorem bsel_update (x : Cell) (b : Byte) : (Function.update m x b (ECON1.cell 0)).setWidth 2 =
    if x = ECON1.cell 0 then b.setWidth 2 else (m (ECON1.cell 0)).setWidth 2 := by
  split
  next h => rw [h, Function.update_self]
  next h => rw [Function.update_of_ne (Ne.symm h)]

theorem shelf_lawful : Lawful (shelf y) where
  ev := nofun
  readCell _ _ := rfl
  writeCell x b _ := bsel_update x b
  setBits x b m := by
    refine (bsel_update x _).trans (ite_congr rfl (fun h ↦ ?_) fun _ ↦ rfl)
    rw [h, BitVec.setWidth_or]
    rfl
  clearBits x b m := by
    refine (bsel_update x _).trans (ite_congr rfl (fun h ↦ ?_) fun _ ↦ rfl)
    rw [h, BitVec.setWidth_and, BitVec.setWidth_not (by decide)]
    rfl
  readBuf _ := rfl
  writeBuf _ _ := rfl
  reset _ := rfl

theorem Rep.value_eq (h : Rep m₀ f m) : value r.1 m = f.get r := by rw [← h.file, get_file]

theorem Rep.bsel (h : Rep m₀ f m) : (m (ECON1.cell 0)).setWidth 2 = f.bsel := by
  rw [← h.file]
  rfl

theorem Rep.store (h : Rep m₀ f m) {v : Word} (hv : r.1 = ECON1 → v.setWidth 2 = f.bsel) :
    Rep m₀ (f.put r v) (store r.1 v m) := by
  refine ⟨?_, fun x hx ↦ (store_frame (hx r) v).trans (h.rest x hx)⟩
  rw [← h.file] at hv ⊢
  exact file_store hv

theorem econ1_kept (b : BankT) : ∀ v : Byte,
    (Econ1Reg.bsel.set b.toNat v).setWidth 16 &&& (0x00FC : Word) = v.setWidth 16 &&& (0x00FC : Word) := by
  cases b <;> decide

/-- Selecting a bank changes the bank select alone. -/
theorem Rep.rebank (h : Rep m₀ f m) (b : BankT) : Rep m₀ { f with bsel := b.bits }
    (Function.update m (ECON1.cell 0) (Econ1Reg.bsel.set b.toNat (m (ECON1.cell 0)))) := by
  let r : ControlReg := ⟨ECON1, by decide, by decide⟩
  let v : Word := (Econ1Reg.bsel.set b.toNat (m (ECON1.cell 0))).setWidth 16
  have hm : Function.update m (ECON1.cell 0) (Econ1Reg.bsel.set b.toNat (m (ECON1.cell 0))) =
      RegisterFile.store ECON1 v m := by
    rw [RegisterFile.store, if_neg (by decide), BitVec.setWidth_setWidth_of_le _ (by decide),
      BitVec.setWidth_eq]
  refine ⟨?_, fun x hx ↦ ?_⟩
  · rw [hm, ← h.file]
    refine File.ext ((regs_store (r := r) v).trans ?_) ((bsel_store (r := r) v).trans ?_)
    · rw [Function.update_eq_self_iff]
      exact econ1_kept b _
    · rw [if_pos rfl, BitVec.setWidth_setWidth_of_le _ (by decide), bsel_set]
  · rw [hm, store_frame (hx r)]
    exact h.rest x hx

/-- What a register access starts from once the bank may have been selected. -/
def Opened (m₀ : Cell → Byte) (f : File) (r : ControlReg) (m : Cell → Byte) : Prop :=
  ∃ b, (r.1.bank = .common → b = f.bsel) ∧ Rep m₀ { f with bsel := b } m

theorem Rep.opened (h : Rep m₀ f m) : Opened m₀ f r m := ⟨f.bsel, fun _ ↦ rfl, h⟩

theorem opens_opened : Opens (shelf y) r.1 (Opened m₀ f r) := by
  refine ⟨shelf_stable _, fun hr ↦ ⟨shelf_stable _, ?_⟩⟩
  rintro m ⟨b, -, hm⟩
  refine ⟨trivial, fun m' ↦ m' = m, shelf_stable _, rfl, ?_⟩
  rintro bank m' rfl
  exact ⟨trivial, bank.bits, fun hc ↦ absurd hc hr, hm.rebank bank⟩

theorem Opened.select (h : Opened m₀ f r m) (hsel : Selected (plain y) r.1 m) :
    Rep m₀ (f.select r) m := by
  obtain ⟨b, hb, hm⟩ := h
  have hf : { f with bsel := b } = f.select r := by
    refine File.ext rfl ?_
    by_cases hr : r.1.bank = .common
    · exact (hb hr).trans (if_pos hr).symm
    · exact (hm.bsel.symm.trans (hsel hr)).trans (if_neg hr).symm
  rwa [hf] at hm

/-- The driver's record is coherent and the chip stands for `f`. -/
def Holds (y : (Cell → Byte) → Byte) (m₀ : Cell → Byte) (f : File) (d : Enc28j60T)
    (m : Cell → Byte) : Prop := Coherent (plain y) d m ∧ Rep m₀ f m

theorem coherent_bsel (h : Coherent (plain y) d m) (hm : Rep m₀ f m) (hd : d.bank ≠ .common) :
    f.bsel = d.bank.bits := hm.bsel.symm.trans (h.resolve_left hd)

theorem bsel_select (hr : r.1 = ECON1) : (f.select r).bsel = f.bsel := if_pos (by rw [hr]; rfl)

theorem spec_write {v : Word} (hv : (Access.write r v).KeepsBank f) :
    (shelf y).Spec (Holds y m₀ f) (enc28j60WriteReg r.1 v)
      fun _ ↦ Holds y m₀ ((f.select r).put r v) := by
  rintro d s hs ⟨hcoh, hm⟩
  have hstore {m : Cell → Byte} (h : Rep m₀ (f.select r) m) :
      Rep m₀ ((f.select r).put r v) (store r.1 v m) :=
    h.store fun hr ↦ (hv hr).trans (bsel_select hr).symm
  refine Machine.dwp_mono (shelf_lawful.spec_writeReg (d := d) r.2.1 r.2.2 opens_opened
    (R := fun m ↦ ∃ m', Rep m₀ (f.select r) m' ∧ m = Function.update m' (r.1.cell 0) (v.setWidth 8))
    (Q := Rep m₀ ((f.select r).put r v)) (shelf_stable _) (shelf_stable _) (fun hr hd ↦ ?_)
    (fun m hm hsel ↦ ⟨trivial, m, hm.select hsel, rfl⟩) ?_ ?_ d s hs ⟨rfl, hcoh, hm.opened⟩)
    fun _ d' _ h ↦ ⟨h.1, h.2.1 ▸ h.2.2.1, h.2.2.2⟩
  · rw [BitVec.setWidth_setWidth_of_le v (by decide)]
    exact (hv hr).trans (coherent_bsel hcoh hm hd)
  · rintro hl - ⟨m', hm', rfl⟩
    have h := hstore hm'
    rwa [store, if_neg hl] at h
  · rintro hl - ⟨m', hm', rfl⟩ -
    have h := hstore hm'
    rw [store, if_pos hl] at h
    exact ⟨trivial, h⟩

theorem spec_read : (shelf y).Spec (Holds y m₀ f) (enc28j60ReadReg r.1)
    fun v d m ↦ v = (f.select r).get r ∧ Holds y m₀ (f.select r) d m := by
  rintro d s hs ⟨hcoh, hm⟩
  refine Machine.dwp_mono (shelf_lawful.spec_readReg (d := d) r.2.1 r.2.2 opens_opened
    (R := fun low m ↦ low = m (r.1.cell 0) ∧ Rep m₀ (f.select r) m)
    (Q := fun v m ↦ v = (f.select r).get r ∧ Rep m₀ (f.select r) m) (fun _ ↦ shelf_stable _)
    (fun _ ↦ shelf_stable _) (fun m hm hsel ↦ ⟨trivial, rfl, hm.select hsel⟩) ?_ ?_ d s hs
    ⟨rfl, hcoh, hm.opened⟩) fun _ d' _ h ↦ ⟨h.1, h.2.2.2.1, h.2.1 ▸ h.2.2.1, h.2.2.2.2⟩
  · rintro hl low m ⟨rfl, hm⟩
    rw [← hm.value_eq, value, if_neg hl]
    exact ⟨rfl, hm⟩
  · rintro hl low m ⟨rfl, hm⟩ -
    rw [← hm.value_eq, value, if_pos hl]
    exact ⟨trivial, rfl, hm⟩

/-- Changing the low byte alone is a write of the whole register. -/
theorem update_low (g : Byte → Byte) {v : Word} (hlow : v.setWidth 8 = g (m (r.1.cell 0)))
    (hhigh : r.1.length = 2 → (v >>> 8).setWidth 8 = m (r.1.cell 1)) :
    Function.update m (r.1.cell 0) (g (m (r.1.cell 0))) = store r.1 v m := by
  rw [store, hlow]
  by_cases hl : r.1.length = 2
  · rw [if_pos hl, hhigh hl, eq_comm, Function.update_eq_self_iff,
      Function.update_of_ne (cells_ne r.1 r.2.1 r.2.2 hl).symm]
  · rw [if_neg hl]

theorem value_low (r : RegT) : (value r m).setWidth 8 = m (r.cell 0) := by
  unfold value
  split
  · exact word_setWidth _ _
  · rw [BitVec.setWidth_setWidth_of_le _ (by decide), BitVec.setWidth_eq]

theorem value_high {r : RegT} (h : r.length = 2) : (value r m >>> 8).setWidth 8 = m (r.cell 1) := by
  rw [value, if_pos h]
  refine BitVec.eq_of_getLsbD_eq fun i hi ↦ ?_
  simp only [BitVec.getLsbD_setWidth, BitVec.getLsbD_ushiftRight, getLsbD_word]
  grind

theorem Rep.value_bsel (h : Rep m₀ f m) : (value ECON1 m).setWidth 2 = f.bsel := by
  rw [← h.bsel, ← value_low (m := m) ECON1, BitVec.setWidth_setWidth_of_le _ (by decide)]

theorem mask_high : ∀ b : Byte, ((b.setWidth 16 : Word) >>> 8).setWidth 8 = (0 : Byte) ∧
    (~~~(b.setWidth 16 : Word) >>> 8).setWidth 8 = (0xFF : Byte) := by
  decide

theorem spec_set {b : Byte} (ht : r.1.type = .ethR) (hb : (Access.set r b).KeepsBank f) :
    (shelf y).Spec (Holds y m₀ f) (enc28j60BitfieldSet r.1 b)
      fun _ ↦ Holds y m₀ ((f.select r).put r ((f.select r).get r ||| b.setWidth 16)) := by
  rintro d s hs ⟨hcoh, hm⟩
  refine Machine.dwp_mono (shelf_lawful.spec_bitfieldSet (d := d) r.2.1 ht opens_opened
    (Q := Rep m₀ ((f.select r).put r ((f.select r).get r ||| b.setWidth 16))) (shelf_stable _)
    (fun hr hd ↦ ?_) (fun m hm hsel ↦ ⟨trivial, ?_⟩) d s hs ⟨rfl, hcoh, hm.opened⟩)
    fun _ d' _ h ↦ ⟨h.1, h.2.1 ▸ h.2.2.1, h.2.2.2⟩
  · rw [← coherent_bsel hcoh hm hd]
    exact hb hr
  · replace hm := hm.select hsel
    have hset : Function.update m (r.1.cell 0) (m (r.1.cell 0) ||| b) =
        store r.1 (value r.1 m ||| b.setWidth 16) m := by
      refine update_low (· ||| b) ?_ fun hl ↦ ?_
      · rw [BitVec.setWidth_or, value_low, BitVec.setWidth_setWidth_of_le _ (by decide),
          BitVec.setWidth_eq]
      · rw [BitVec.ushiftRight_or_distrib, BitVec.setWidth_or, value_high hl, (mask_high b).1]
        exact BitVec.or_zero
    change Rep m₀ _ (Function.update m (r.1.cell 0) (m (r.1.cell 0) ||| b))
    rw [hset, ← hm.value_eq]
    refine hm.store fun hr ↦ ?_
    rw [hr, BitVec.setWidth_or, hm.value_bsel, BitVec.setWidth_setWidth_of_le _ (by decide),
      bsel_select hr]
    exact hb hr

theorem spec_clear {b : Byte} (ht : r.1.type = .ethR) (hb : (Access.clear r b).KeepsBank f) :
    (shelf y).Spec (Holds y m₀ f) (enc28j60BitfieldClear r.1 b)
      fun _ ↦ Holds y m₀ ((f.select r).put r ((f.select r).get r &&& ~~~b.setWidth 16)) := by
  rintro d s hs ⟨hcoh, hm⟩
  refine Machine.dwp_mono (shelf_lawful.spec_bitfieldClear (d := d) r.2.1 ht opens_opened
    (Q := Rep m₀ ((f.select r).put r ((f.select r).get r &&& ~~~b.setWidth 16))) (shelf_stable _)
    (fun hr hd ↦ ?_) (fun m hm hsel ↦ ⟨trivial, ?_⟩) d s hs ⟨rfl, hcoh, hm.opened⟩)
    fun _ d' _ h ↦ ⟨h.1, h.2.1 ▸ h.2.2.1, h.2.2.2⟩
  · rw [← coherent_bsel hcoh hm hd]
    exact hb hr
  · replace hm := hm.select hsel
    have hclear : Function.update m (r.1.cell 0) (m (r.1.cell 0) &&& ~~~b) =
        store r.1 (value r.1 m &&& ~~~b.setWidth 16) m := by
      refine update_low (· &&& ~~~b) ?_ fun hl ↦ ?_
      · rw [BitVec.setWidth_and, value_low, BitVec.setWidth_not (by decide),
          BitVec.setWidth_setWidth_of_le _ (by decide), BitVec.setWidth_eq]
      · rw [BitVec.ushiftRight_and_distrib, BitVec.setWidth_and, value_high hl, (mask_high b).2]
        exact BitVec.and_allOnes
    change Rep m₀ _ (Function.update m (r.1.cell 0) (m (r.1.cell 0) &&& ~~~b))
    rw [hclear, ← hm.value_eq]
    refine hm.store fun hr ↦ ?_
    rw [hr, BitVec.setWidth_and, hm.value_bsel, BitVec.setWidth_not (by decide),
      BitVec.setWidth_setWidth_of_le _ (by decide), bsel_select hr]
    exact hb hr

/-- One access of the driver is one step of the file. -/
theorem does_access (a : Access) (ha : a.KeepsBank f) (h : Holds y m₀ f d m) :
    (shelf y).Does a.run (fun v d' s' ↦ s'.window = .high ∧ v = (a.step f).1 ∧
      Holds y m₀ (a.step f).2 d' s'.chip) d ⟨.high, m⟩ := by
  cases a with
  | write r v =>
    exact Machine.dwp_bind.mpr (Machine.dwp_mono (spec_write ha d ⟨.high, m⟩ (.inl rfl) h)
      fun _ _ _ h ↦ ⟨h.1, rfl, h.2⟩)
  | read r =>
    refine Machine.dwp_bind.mpr (Machine.dwp_mono (spec_read d ⟨.high, m⟩ (.inl rfl) h) ?_)
    rintro v d' s' ⟨hw, rfl, h'⟩
    exact ⟨hw, rfl, h'⟩
  | set r b =>
    by_cases ht : r.1.type = .ethR
    · rw [Access.step, if_pos ht]
      exact Machine.dwp_bind.mpr (Machine.dwp_mono (spec_set ht ha d ⟨.high, m⟩ (.inl rfl) h)
        fun _ _ _ h ↦ ⟨h.1, rfl, h.2⟩)
    · rw [Access.step, if_neg ht, Access.run, enc28j60BitfieldSet, if_neg ht]
      exact ⟨rfl, rfl, h⟩
  | clear r b =>
    by_cases ht : r.1.type = .ethR
    · rw [Access.step, if_pos ht]
      exact Machine.dwp_bind.mpr (Machine.dwp_mono (spec_clear ht ha d ⟨.high, m⟩ (.inl rfl) h)
        fun _ _ _ h ↦ ⟨h.1, rfl, h.2⟩)
    · rw [Access.step, if_neg ht, Access.run, enc28j60BitfieldClear, if_neg ht]
      exact ⟨rfl, rfl, h⟩

theorem does_run (as : List Access) (ha : KeepBank as f) (h : Holds y m₀ f d m) :
    (shelf y).Does (run as) (fun vs d' s' ↦ s'.window = .high ∧ vs = (steps as f).1 ∧
      Holds y m₀ (steps as f).2 d' s'.chip) d ⟨.high, m⟩ := by
  induction as generalizing f d m with
  | nil => exact ⟨rfl, rfl, h⟩
  | cons a as ih =>
    refine Machine.dwp_bind.mpr (Machine.dwp_mono (does_access a ha.1 h) ?_)
    rintro v d' ⟨w, m'⟩ ⟨rfl, rfl, h'⟩
    refine Machine.dwp_bind.mpr (Machine.dwp_mono (ih ha.2 h') ?_)
    rintro vs d'' s'' ⟨hw, rfl, h''⟩
    exact ⟨hw, rfl, h''⟩

/-- Register accesses through the banks are accesses of a file without banks: they come to an
end with the values the file gives and leave what the file would hold. Cells that belong to no
register stay as they are. -/
theorem accesses_refine_file (as : List Access) (σ : ℕ → List Empty)
    (hd : Coherent (plain y) d m) (ha : KeepBank as (file m)) :
    ∃ d' m', (Port.machine (plain y) idle).Returns σ ((run as).run d) ⟨.high, m⟩
        ((steps as (file m)).1, d') ⟨.high, m'⟩ ∧
      file m' = (steps as (file m)).2 ∧ Coherent (plain y) d' m' ∧
      ∀ x, (∀ r : ControlReg, x ∉ r.1.cells) → m' x = m x := by
  have hm : Holds y m (file m) d m := ⟨hd, rfl, fun _ _ ↦ rfl⟩
  have h := does_run as ha hm
  obtain ⟨vs, d', ⟨w, m'⟩, hr, rfl, rfl, hcoh, hm⟩ := Machine.dwp_total h σ
  exact ⟨d', m', hr, hm.file, hcoh, hm.rest⟩

/-- Two banks, and `RXEN` in between. -/
def threeAccesses : List Access :=
  [.write ⟨ERXSTL, by decide⟩ 0x1234, .set ⟨ECON1, by decide⟩ 0x04, .read ⟨MACON3, by decide⟩]

theorem accesses_refine_file_three :
    ∃ d' m', (Port.machine (plain fun _ ↦ 0) idle).Returns (fun _ ↦ [])
        ((run threeAccesses).run ⟨.common, ⟨0, 0, 0⟩, 0, 0⟩) ⟨.high, fun _ ↦ 0⟩
        ((steps threeAccesses (file fun _ ↦ 0)).1, d') ⟨.high, m'⟩ ∧
      file m' = (steps threeAccesses (file fun _ ↦ 0)).2 ∧ Coherent (plain fun _ ↦ 0) d' m' ∧
      ∀ x, (∀ r : ControlReg, x ∉ r.1.cells) → m' x = 0 := by
  refine accesses_refine_file threeAccesses (fun _ ↦ []) (.inl rfl) ⟨fun h ↦ ?_, ?_, trivial, trivial⟩
  · exact absurd h (by decide)
  · exact fun _ ↦ by decide

example : (steps threeAccesses (file fun _ ↦ 0)).1 = [none, none, some 0] ∧
    (steps threeAccesses (file fun _ ↦ 0)).2.bsel = 2 ∧
    (steps threeAccesses (file fun _ ↦ 0)).2.regs ⟨ERXSTL, by decide⟩ = 0x1234 := by decide

end Simulation

end Enc28j60.RegisterFile
