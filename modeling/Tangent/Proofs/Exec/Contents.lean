import Tangent.Proofs.Exec.Effect
import Tangent.Proofs.Program.Discipline
import Tangent.Proofs.Vector.Chunks

/-!
What the operands of a run show.

An instruction changes what operands show in a way that depends on what they show alone, and not on
where their buffers lie. This takes buffers without common elements, and instructions whose source
and destination have none.
-/

namespace Tangent

variable {α : Type}

/-- Having no common element does not depend on the order. -/
theorem View.Disjoint.symm {a b : View} (disjoint : a.Disjoint b) : b.Disjoint a :=
  -- One lies before the other or behind it, whichever is named first.
  fun same => (disjoint same.symm).symm

/-- Views of different blocks have no common element. -/
theorem View.disjoint_of_ne {a b : View} (differ : a.block ≠ b.block) : a.Disjoint b :=
  -- Elements are compared within one block only.
  fun same => absurd same differ

section Kernels

variable [Elem α]

namespace Host

variable {h : Host α} {n : Nat}

/-- An operation on one buffer changes the elements of its range. -/
theorem store_one (cut : h.chunking.Proper room) (small : n ≤ room) (op : Unary α) (dst : View) :
    (h.afterChunks (Int64.ofNat n) (op.onRange dst)).store =
      Store.mapRange op.apply dst 0 n h.store :=
  -- The chunks tile the range, and each of them changes its own part.
  (op.rangewise dst n).overChunks_eq (cut.mono small).tiles (.refl _) h.store

/-- An operation on two buffers that are apart combines the elements of their ranges. -/
theorem store_two (cut : h.chunking.Proper room) (small : n ≤ room) (op : Binary) {src dst : View}
    (apart : src.Apart dst n) :
    (h.afterChunks (Int64.ofNat n) (op.onRange src dst)).store =
      Store.zipRange op.apply src dst 0 n h.store := by
  -- The chunks tile the range, so together they do what one call for all of it does.
  have whole : (h.afterChunks (Int64.ofNat n) (op.onRange src dst)).store =
      op.onRange src dst 0 n h.store :=
    (op.rangewise (.inl apart)).overChunks_eq (cut.mono small).tiles (.refl _) h.store
  rw [whole, op.onRange_eq apart 0 n h.store (by omega)]

end Host

end Kernels

/-- What operands show: a number at a position of a buffer, if there is one. -/
abbrev Contents (α : Type) := Ref → Nat → Option α

namespace Frame

/-- The buffers that a run writes to apart from its temporaries. -/
def registers (f : Frame) : List View := [f.value, f.deriv]

/-- The buffers of a run apart from its temporaries. -/
def buffers (f : Frame) : List View := f.registers ++ f.vars

/-- What operands show in memory. -/
def contents (f : Frame) (s : Store α) (temps : TempTable View) : Contents α := fun r p =>
  (f.find? temps r).bind (fun v => if p < v.length then s.read? v p else none)

/-- A frame in the first `base` blocks, with registers apart from each other and from the data. -/
structure Apart (f : Frame) (base : Nat) : Prop where
  old : ∀ v ∈ f.buffers, v.block < base
  registers : f.value.Disjoint f.deriv
  data : ∀ v ∈ f.vars, ∀ w ∈ f.registers, w.Disjoint v

/-- Such a frame next to temporaries that have later blocks, each one of its own. -/
structure Separate (f : Frame) (base : Nat) (temps : TempTable View) : Prop
    extends f.Apart base where
  fresh : ∀ entry ∈ temps, base ≤ entry.2.block
  distinct : temps.Pairwise (fun a b => b.2.block ≠ a.2.block)

variable {f : Frame} {temps : TempTable View} {r r' : Ref} {v v' : View} {base : Nat}

/-- Operands of one buffer are found in one place. -/
theorem find?_eq_of_buffer (same : r.buffer = r'.buffer) : f.find? temps r = f.find? temps r' := by
  -- The buffer tells the space, and the number where numbers matter.
  unfold Ref.buffer at same
  unfold find?
  cases space : r.space <;> cases space' : r'.space <;> simp_all

/-- A new temporary is found under its number, and nothing else is found elsewhere. -/
theorem find?_insert (index : Int64) :
    f.find? (temps.insert index v) r =
      if r.buffer = (.temp, some index) then some v else f.find? temps r := by
  -- Only temporaries are looked for in the table.
  unfold find? Ref.buffer
  cases space : r.space <;> simp [TempTable.find?_insert, eq_comm]

/-- A temporary that was forgotten is not found, and nothing else is found elsewhere. -/
theorem find?_erase (index : Int64) :
    f.find? (temps.erase index) r =
      if r.buffer = (.temp, some index) then none else f.find? temps r := by
  -- Only operands in the space of temporaries look at the table.
  unfold find? Ref.buffer
  cases space : r.space <;> simp [TempTable.find?_erase, eq_comm]

/-- Inside a buffer its elements are shown. -/
theorem contents_eq (found : f.find? temps r = some v) {p : Nat} (below : p < v.length)
    (s : Store α) : f.contents s temps r p = s.cell? v.block (v.start + p) := by
  -- The position lies in the view, so the memory is read there.
  rw [contents, found, Option.bind_some, if_pos below, Store.read?_eq]

/-- Stores in which operands show the same have the same in their buffers. -/
theorem contents_inj {s t : Store α} {temps' : TempTable View}
    (same : f.contents s temps = f.contents t temps') (found : f.find? temps r = some v)
    (found' : f.find? temps' r = some v) : s.contents v = t.contents v := by
  -- Every element of the buffer is shown by the operand at its position.
  refine Store.contentsFrom_congr (fun p _ below => ?_)
  have shown := congrFun (congrFun same r) p
  rwa [contents_eq found (by omega), contents_eq found' (by omega)] at shown

/-- What is shown stays when memory changes elsewhere. -/
theorem contents_of_changes {region : Region} {s t : Store α} (changed : s.Changes region t)
    (there : ∀ r v, f.find? temps r = some v → v.block < s.blocks.size)
    (outside : ∀ r v p, f.find? temps r = some v → p < v.length → ¬ region v.block (v.start + p)) :
    f.contents t temps = f.contents s temps := by
  -- Without a buffer, or behind its end, nothing is shown either way.
  funext r p
  unfold contents
  cases found : f.find? temps r with
  | none => rfl
  | some v =>
    simp only [Option.bind_some]
    split
    · rename_i below
      exact changed.keeps v.block (v.start + p) (there r v found) (outside r v p found below)
    · rfl

/-- A temporary is found among the temporaries. -/
theorem mem_of_find?_temp (found : f.find? temps r = some v) (temp : r.space = .temp) :
    (r.index, v) ∈ temps := by
  -- The table is searched for the number, and an entry that is found has it.
  simp only [find?, temp] at found
  obtain ⟨entry, listed, rfl⟩ := Option.map_eq_some_iff.mp found
  have named : entry.1 = r.index := by simpa using List.find?_some listed
  rw [← named]
  exact List.mem_of_find?_eq_some listed

/-- A variable is found among the data. -/
theorem mem_vars (found : f.find? temps r = some v) (data : r.space = .var) : v ∈ f.vars := by
  -- The index is not negative, and one that is too large finds nothing.
  simp only [find?, data] at found
  split at found
  · simp at found
  · exact List.mem_of_getElem? found

/-- What is neither a temporary nor a variable is a register. -/
theorem mem_registers (found : f.find? temps r = some v) (other : r.space ≠ .temp)
    (written : r.space ≠ .var) : v ∈ f.registers := by
  -- Operands in an unknown space are not found at all.
  cases space : r.space <;> simp_all [find?, registers]

/-- What is no temporary is found in the frame. -/
theorem mem_buffers (found : f.find? temps r = some v) (other : r.space ≠ .temp) :
    v ∈ f.buffers := by
  -- Data and registers make up the frame.
  by_cases data : r.space = .var
  · exact List.mem_append_right _ (mem_vars found data)
  · exact List.mem_append_left _ (mem_registers found other data)

/-- A buffer that is written to has no element in common with any other buffer of the run. -/
theorem Separate.disjoint (separate : f.Separate base temps)
    (found : f.find? temps r = some v) (found' : f.find? temps r' = some v')
    (written : r.space ≠ .var) (differ : r.buffer ≠ r'.buffer) : v.Disjoint v' := by
  by_cases temp : r.space = .temp
  · have listed := mem_of_find?_temp found temp
    by_cases temp' : r'.space = .temp
    · -- Two temporaries have blocks of their own.
      have listed' := mem_of_find?_temp found' temp'
      refine View.disjoint_of_ne (ne_of_pairwise separate.distinct listed' listed ?_)
      intro same
      have named : r'.index = r.index := congrArg Prod.fst same
      exact differ (by simp only [Ref.buffer, temp, temp', named])
    · -- A temporary has a later block than anything in the frame.
      have new : base ≤ v.block := separate.fresh _ listed
      have old := separate.old _ (mem_buffers found' temp')
      exact View.disjoint_of_ne (by omega)
  · by_cases temp' : r'.space = .temp
    · have new : base ≤ v'.block := separate.fresh _ (mem_of_find?_temp found' temp')
      have old := separate.old _ (mem_buffers found temp)
      exact View.disjoint_of_ne (by omega)
    · by_cases data : r'.space = .var
      · exact separate.data v' (mem_vars found' data) v (mem_registers found temp written)
      · -- Both are registers, and not the same.
        cases space : r.space <;> cases space' : r'.space <;> simp_all [find?, Ref.buffer]
        · exact found ▸ found' ▸ separate.registers
        · exact found ▸ found' ▸ separate.registers.symm

/-- Work on a stretch of one buffer shows there and in no other buffer of the run. -/
theorem Separate.contents_work (separate : f.Separate base temps)
    (found : f.find? temps r = some v) (written : r.space ≠ .var) {k n : Nat}
    (inside : k + n ≤ v.length) {s t : Store α} {g : Nat → Nat → Option α}
    (cells : ∀ block i, t.cell? block i =
      if block = v.block ∧ v.start + k ≤ i ∧ i < v.start + k + n then g block i
      else s.cell? block i) (r' : Ref) (p : Nat) :
    f.contents t temps r' p =
      if r'.buffer = r.buffer ∧ k ≤ p ∧ p < k + n then g v.block (v.start + p)
      else f.contents s temps r' p := by
  unfold contents
  by_cases same : r'.buffer = r.buffer
  · -- In the buffer itself the position decides, counted from the start of the buffer.
    rw [find?_eq_of_buffer same, found, Option.bind_some, Option.bind_some, Store.read?_eq, cells]
    by_cases there : k ≤ p ∧ p < k + n
    · rw [if_pos (by omega), if_pos (by omega), if_pos ⟨same, there⟩]
    · rw [if_neg (c := _ = v.block ∧ _) (by omega), if_neg (c := _ ∧ k ≤ p ∧ _) (by tauto)]
      rfl
  · rw [if_neg (fun here => same here.1)]
    cases found' : f.find? temps r' with
    | none => rfl
    | some u =>
      -- The stretch has no element of another buffer.
      have order := separate.disjoint found found' written (fun same' => same same'.symm)
      unfold View.Disjoint at order
      simp only [Option.bind_some]
      split
      · rw [Store.read?_eq, cells, if_neg (by omega), Store.read?_eq]
      · rfl

end Frame

instance (spot : (Space × Option Int64) × Int) (r : Ref) (len : Int64) :
    Decidable (spot ∈ r.spots len) := inferInstanceAs (Decidable (_ ∧ _ ∧ _))

/--
What an instruction makes of what operands show, in memory whose new blocks hold zeros.

Nothing here tells where a buffer lies in memory.
-/
def Instr.act [Elem α] (c : Contents α) (i : Instr α) : Contents α := fun r p =>
  match i.task with
  | .alloc =>
    if r.buffer = (.temp, some i.dst.index)
    then if p < i.len.toNatClampNeg then some Elem.zero else none
    else c r p
  | .free => if r.buffer = (.temp, some i.dst.index) then none else c r p
  | .one op =>
    if (r.buffer, (p : Int)) ∈ i.dst.spots i.len then (c r p).map op.apply else c r p
  | .two op =>
    if (r.buffer, (p : Int)) ∈ i.dst.spots i.len then
      -- The element at the same distance from the start of the source.
      (c i.src (i.src.offset.toNatClampNeg + (p - i.dst.offset.toNatClampNeg))).elim (c r p)
        (fun x => (c r p).map (op.apply x))
    else c r p
  | .unknown _ => c r p

/-- The elements of an operand that lies in a buffer are counted from its start. -/
theorem Frame.Lies.mem_spots {f : Frame} {temps : TempTable View} {r : Ref} {len : Int64}
    {buffer : View} {k n : Nat} (lies : f.Lies temps r len buffer k n) (r' : Ref) (p : Nat) :
    (r'.buffer, (p : Int)) ∈ r.spots len ↔ r'.buffer = r.buffer ∧ k ≤ p ∧ p < k + n := by
  -- Start and length are exact, so the comparisons are those of the counts.
  have bounded := lies.bounded
  have first := Int64.toInt_ofNat_of_lt (show k < 2 ^ 63 by omega)
  have count := Int64.toInt_ofNat_of_lt (show n < 2 ^ 63 by omega)
  show r'.buffer = r.buffer ∧ r.offset.toInt ≤ p ∧ (p : Int) < r.offset.toInt + len.toInt ↔ _
  rw [lies.start, lies.count, first, count]
  norm_cast

namespace Frame

variable [Elem α] {f : Frame} {temps : TempTable View} {base : Nat} {h : Host α} {i : Instr α}
  {v v' : View} {k k' n : Nat}

/-- What is shown after an operation on one operand. -/
theorem Separate.contents_one (separate : f.Separate base temps)
    (cut : h.chunking.Proper Host.room) {op : Unary α} (task : i.task = .one op)
    (written : i.dst.space ≠ .var) (target : f.Lies temps i.dst i.len v k n)
    (small : n ≤ Host.room) :
    f.contents (h.afterChunks i.len (op.onRange (f.part temps i.dst i.len))).store temps =
      i.act (f.contents h.store temps) := by
  funext r p
  rw [target.part_eq, target.count, Host.store_one cut small, separate.contents_work
    target.found written target.inside (Store.cell?_mapRange op.apply _ 0 n h.store)]
  simp only [Instr.act, task, target.mem_spots]
  split
  · -- The element is there in the buffer of the operand.
    rename_i here
    have inside := target.inside
    rw [contents_eq ((find?_eq_of_buffer here.1).trans target.found) (by omega)]
  · rfl

omit [Elem α] in
/-- Operands without common elements lie apart, in one buffer or in two. -/
theorem Separate.parts (separate : f.Separate base temps)
    (written : i.dst.space ≠ .var) (target : f.Lies temps i.dst i.len v k n)
    (source : f.Lies temps i.src i.len v' k' n)
    (disjoint : Disjoint (i.src.spots i.len) (i.dst.spots i.len)) :
    ((v'.drop k').take n).Apart ((v.drop k).take n) n := by
  by_cases same : i.dst.buffer = i.src.buffer
  · obtain rfl : v = v' := by
      have found : f.find? temps i.dst = f.find? temps i.src := find?_eq_of_buffer same
      rw [target.found, source.found] at found
      exact Option.some.inj found
    -- Two stretches that overlap have the start of the later one in common.
    intro _
    by_contra overlap
    simp only [View.take, View.drop] at overlap
    have fromSource := (source.mem_spots i.src (max k k')).mpr ⟨rfl, by omega⟩
    have fromTarget := (target.mem_spots i.src (max k k')).mpr ⟨same.symm, by omega⟩
    exact Set.disjoint_left.mp disjoint fromSource fromTarget
  · -- Parts of buffers that have no common element have none either.
    intro block
    have order := separate.disjoint target.found source.found written same block.symm
    have := target.inside
    have := source.inside
    simp only [View.take, View.drop]
    omega

/-- What is shown after an operation on two operands without common elements. -/
theorem Separate.contents_two (separate : f.Separate base temps)
    (cut : h.chunking.Proper Host.room) {op : Binary} (task : i.task = .two op)
    (written : i.dst.space ≠ .var) (target : f.Lies temps i.dst i.len v k n)
    (source : f.Lies temps i.src i.len v' k' n)
    (disjoint : Disjoint (i.src.spots i.len) (i.dst.spots i.len)) (small : n ≤ Host.room) :
    f.contents (h.afterChunks i.len (op.onRange (f.part temps i.src i.len)
        (f.part temps i.dst i.len))).store temps =
      i.act (f.contents h.store temps) := by
  have parts := separate.parts written target source disjoint
  funext r p
  rw [target.part_eq, source.part_eq, target.count, Host.store_two cut small op parts,
    separate.contents_work target.found written target.inside
      (Store.cell?_zipRange op.apply parts 0 n h.store (by omega))]
  simp only [Instr.act, task, target.mem_spots]
  split
  · -- Both elements are there, at the same distance from the starts of their operands.
    rename_i here
    have inside := target.inside
    have inside' := source.inside
    have bounded := target.bounded
    have bounded' := source.bounded
    have start : i.dst.offset.toNatClampNeg = k := by
      rw [target.start, Int64.toNatClampNeg_ofNat_of_lt (by omega)]
    have start' : i.src.offset.toNatClampNeg = k' := by
      rw [source.start, Int64.toNatClampNeg_ofNat_of_lt (by omega)]
    have shown := contents_eq ((find?_eq_of_buffer here.1).trans target.found)
      (show p < v.length by omega) h.store
    have shown' : f.contents h.store temps i.src (k' + (p - k)) =
        h.store.read? ((v'.drop k').take n) (v.start + p - (v.start + k)) := by
      rw [contents_eq source.found (by omega)]
      simp only [Store.read?_eq, View.take, View.drop]
      congr 1
      omega
    rw [start, start', shown, shown']
    rfl
  · rfl

/-- What is shown after a temporary began. -/
theorem contents_begin (zeroed : ∀ block p, h.blank block p = Elem.zero) (task : i.task = .alloc)
    (count : i.len = Int64.ofNat n) (small : n ≤ Host.room)
    (there : ∀ r v, f.find? temps r = some v → v.block < h.store.blocks.size) :
    f.contents (h.lend n).store (temps.insert i.dst.index (h.nextBlock n)) =
      i.act (f.contents h.store temps) := by
  have size : i.len.toNatClampNeg = n := by
    rw [count, Int64.toNatClampNeg_ofNat_of_lt (Host.lt_of_le_room small)]
  -- Nothing that was there before changes.
  have kept : f.contents (h.lend n).store temps = f.contents h.store temps :=
    contents_of_changes (h.changes_lend n (fun _ _ => False)) there (fun _ _ _ _ _ => id)
  funext r p
  simp only [Instr.act, task, size, ← kept]
  simp only [contents, find?_insert]
  split
  · -- The new block holds zeros up to its size.
    simp only [Option.bind_some, Host.nextBlock]
    split
    · rename_i below
      simp [Store.read?_eq, Host.lend, Store.cell?_push, below, zeroed]
    · rfl
  · rfl

/-- What is shown after a temporary ended. -/
theorem contents_end (s : Store α) (task : i.task = .free) :
    f.contents s (temps.erase i.dst.index) = i.act (f.contents s temps) := by
  -- Its block stays as it is, but is no longer found.
  funext r p
  simp only [Instr.act, task]
  simp only [contents, find?_erase]
  split <;> rfl

end Frame

end Tangent
