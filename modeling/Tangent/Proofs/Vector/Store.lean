import Mathlib
import Tangent.Vector.Store

/-!
What a store shows after it was written to.

A range operation is described by the positions it changes: everything else reads as before. Two
stores that differ in a region only are compared by `Store.Changes`.
-/

namespace Tangent

/-- Positions of blocks, given by the number of the block and the position in it. -/
abbrev Region := Nat → Nat → Prop

namespace View

/-- The first `n` positions of a view. -/
def spots (v : View) (n : Nat) : Region := fun block i =>
  block = v.block ∧ v.start ≤ i ∧ i < v.start + n

/-- Two views whose first `n` positions have none in common. -/
def Apart (a b : View) (n : Nat) : Prop :=
  -- Views of one block are apart when one of them ends before the other starts.
  a.block = b.block → a.start + n ≤ b.start ∨ b.start + n ≤ a.start

/-- Being apart does not depend on the order. -/
theorem Apart.symm {a b : View} {n : Nat} (apart : a.Apart b n) : b.Apart a n :=
  -- One lies before the other or behind it, whichever is named first.
  fun same => (apart same.symm).symm

end View

namespace Store

variable {α : Type}

/-- The number at a position of a block. -/
def cell? (s : Store α) (block i : Nat) : Option α := s.blocks[block]?.bind (fun b => b[i]?)

/-- Reading through a view is reading its block further on. -/
theorem read?_eq (s : Store α) (v : View) (i : Nat) :
    s.read? v i = s.cell? v.block (v.start + i) := rfl

/-- A position that holds a number lies in a block of the store. -/
theorem lt_size_of_cell? {s : Store α} {block i : Nat} {x : α} (held : s.cell? block i = some x) :
    block < s.blocks.size := by
  -- Outside of the store there is no block to look into.
  by_contra outside
  have absent : s.blocks[block]? = none := Array.getElem?_eq_none (by omega)
  simp [cell?, absent] at held

/-- Changing an element changes the number at its position and no other. -/
theorem cell?_modify (s : Store α) (v : View) (at_ : Nat) (f : α → α) (block i : Nat) :
    (s.modify v at_ f).cell? block i =
      if block = v.block ∧ i = v.start + at_ then (s.cell? block i).map f
      else s.cell? block i := by
  -- The block is changed at one position, and the store at one block.
  simp only [cell?, modify, Array.getElem?_modify]
  by_cases same : v.block = block
  · -- In the block itself the position decides.
    subst same
    by_cases spot : v.start + at_ = i
    · subst spot
      cases s.blocks[v.block]? <;> simp [Array.getElem?_modify]
    · cases s.blocks[v.block]? <;> simp [Array.getElem?_modify, spot, Ne.symm spot]
  · simp [same, Ne.symm same]

/-- Changing an element adds no block. -/
@[simp] theorem size_modify (s : Store α) (v : View) (i : Nat) (f : α → α) :
    (s.modify v i f).blocks.size = s.blocks.size := by
  -- The element is replaced in its block.
  simp [modify]

/-- Changing a range changes the numbers at its positions and no other. -/
theorem cell?_mapRange (f : α → α) (v : View) (first count : Nat) (s : Store α) (block i : Nat) :
    (mapRange f v first count s).cell? block i =
      if block = v.block ∧ v.start + first ≤ i ∧ i < v.start + first + count
      then (s.cell? block i).map f else s.cell? block i := by
  -- The first element is changed, and the rest of the range lies behind it.
  induction count generalizing first s with
  | zero =>
    rw [mapRange, if_neg (by omega)]
  | succ count ih =>
    rw [mapRange, ih, cell?_modify]
    by_cases here : block = v.block ∧ i = v.start + first
    · -- The first element is changed once: the rest of the range does not come back to it.
      rw [if_neg (by omega), if_pos here, if_pos (by omega)]
    · rw [if_neg here]
      by_cases later : block = v.block ∧ v.start + (first + 1) ≤ i ∧
          i < v.start + (first + 1) + count
      · rw [if_pos later, if_pos (by omega)]
      · rw [if_neg later, if_neg (by omega)]

/-- Changing a range adds no block. -/
@[simp] theorem size_mapRange (f : α → α) (v : View) (first count : Nat) (s : Store α) :
    (mapRange f v first count s).blocks.size = s.blocks.size := by
  -- The elements are changed one after the other.
  induction count generalizing first s with
  | zero => rfl
  | succ count ih => rw [mapRange, ih, size_modify]

/-- What a view shows does not change with an element that is not its own. -/
theorem read?_modify_of_ne (s : Store α) (v w : View) (i j : Nat) (f : α → α)
    (other : v.block = w.block → v.start + i ≠ w.start + j) :
    (s.modify w j f).read? v i = s.read? v i := by
  -- The element that changes is in another block, or elsewhere in this one.
  rw [read?_eq, cell?_modify, if_neg (fun here => other here.1 here.2), read?_eq]

/-- Combining a source into a destination apart from it changes the destination only. -/
theorem cell?_zipRange (f : α → α → α) {src dst : View} {n : Nat} (apart : src.Apart dst n)
    (first count : Nat) (s : Store α) (inside : first + count ≤ n) (block i : Nat) :
    (zipRange f src dst first count s).cell? block i =
      if block = dst.block ∧ dst.start + first ≤ i ∧ i < dst.start + first + count
      then (s.read? src (i - dst.start)).elim (s.cell? block i)
        (fun x => (s.cell? block i).map (f x))
      else s.cell? block i := by
  -- A step writes where no later step reads, because the source lies elsewhere.
  induction count generalizing first s with
  | zero =>
    rw [zipRange, if_neg (by omega)]
  | succ count ih =>
    rw [zipRange]
    cases found : s.read? src first with
    | none =>
      -- Without a source the element stays, and the others follow.
      simp only [ih (first + 1) s (by omega)]
      by_cases here : block = dst.block ∧ i = dst.start + first
      · have position : i - dst.start = first := by omega
        rw [if_neg (by omega), if_pos (by omega), position, found]
        rfl
      · by_cases later : block = dst.block ∧ dst.start + (first + 1) ≤ i ∧
            i < dst.start + (first + 1) + count
        · rw [if_pos later, if_pos (by omega)]
        · rw [if_neg later, if_neg (by omega)]
    | some x =>
      simp only [ih (first + 1) (s.modify dst first (f x)) (by omega)]
      by_cases here : block = dst.block ∧ i = dst.start + first
      · have position : i - dst.start = first := by omega
        rw [if_neg (by omega), if_pos (by omega), cell?_modify, if_pos here, position, found]
        rfl
      · rw [cell?_modify, if_neg here]
        by_cases later : block = dst.block ∧ dst.start + (first + 1) ≤ i ∧
            i < dst.start + (first + 1) + count
        · -- The source of a later element is not what was written here.
          rw [if_pos later, if_pos (by omega), read?_modify_of_ne]
          intro same
          have order := apart same
          omega
        · rw [if_neg later, if_neg (by omega)]

/-- Combining ranges adds no block. -/
@[simp] theorem size_zipRange (f : α → α → α) (src dst : View) (first count : Nat) (s : Store α) :
    (zipRange f src dst first count s).blocks.size = s.blocks.size := by
  -- The elements are combined one after the other, and those that cannot be read are passed over.
  induction count generalizing first s with
  | zero => rfl
  | succ count ih =>
    rw [zipRange]
    cases s.read? src first with
    | none => exact ih (first + 1) s
    | some x => rw [ih, size_modify]

/-- A new block takes the next number, and the others keep what they hold. -/
theorem cell?_push (s : Store α) (data : Array α) (block i : Nat) :
    (s.push data).2.cell? block i =
      if block = s.blocks.size then data[i]? else s.cell? block i := by
  -- Blocks are numbered from zero, so the next number is how many there are.
  simp only [cell?, push, Array.getElem?_push]
  by_cases new : block = s.blocks.size
  · simp [new]
  · simp [new]

/-- What a view shows from a position on starts with the element there. -/
theorem toList_contentsFrom_succ (s : Store α) (v : View) (first count : Nat) :
    (s.contentsFrom v first (count + 1)).toList =
      (s.read? v first).toList ++ (s.contentsFrom v (first + 1) count).toList := by
  -- The stretch is a part of one list, cut off behind its first element.
  simp only [contentsFrom, read?]
  cases s.blocks[v.block]? with
  | none => rfl
  | some block =>
    simp only [Option.bind_some, Array.toList_extract, List.extract_eq_take_drop]
    have longer : v.start + first + (count + 1) - (v.start + first) = count + 1 := by omega
    have shorter : v.start + (first + 1) + count - (v.start + (first + 1)) = count := by omega
    rw [longer, shorter]
    by_cases inside : v.start + first < block.size
    · -- Inside the block there is an element to start with.
      rw [List.drop_eq_getElem_cons (by simpa using inside)]
      simp [inside, Nat.add_assoc]
    · -- Past its end nothing is left, from here on or from the next position on.
      have past : block.toList.length ≤ v.start + first := by simpa using inside
      rw [List.drop_eq_nil_of_le past, List.drop_eq_nil_of_le (by omega)]
      simp [Array.getElem?_eq_none (Nat.le_of_not_lt inside)]

/-- What a view shows depends on its own elements only. -/
theorem contentsFrom_congr {s t : Store α} {v w : View} {first count : Nat}
    (same : ∀ i, first ≤ i → i < first + count → s.read? v i = t.read? w i) :
    s.contentsFrom v first count = t.contentsFrom w first count := by
  -- The stretch is compared element by element from its start.
  apply Array.toList_inj.mp
  induction count generalizing first with
  | zero => simp [contentsFrom]; cases s.blocks[v.block]? <;> cases t.blocks[w.block]? <;> simp
  | succ count ih =>
    rw [toList_contentsFrom_succ, toList_contentsFrom_succ, same first (by omega) (by omega),
      ih (fun i low high => same i (by omega) (by omega))]

/-- Behind a position that holds nothing a view shows nothing. -/
theorem toList_contentsFrom_past {s : Store α} {v : View} {first : Nat}
    (past : s.read? v first = none) (count : Nat) :
    (s.contentsFrom v (first + 1) count).toList = [] := by
  -- Either there is no block, or it ends at the position or before.
  simp only [read?, contentsFrom] at past ⊢
  cases found : s.blocks[v.block]? with
  | none => rfl
  | some block =>
    simp only [found, Option.bind_some, Array.getElem?_eq_none_iff] at past
    simp only [Array.toList_extract, List.extract_eq_take_drop, List.take_eq_nil_iff,
      List.drop_eq_nil_iff, Array.length_toList]
    omega

/-- Copying to a destination apart from the source combines by taking the source. -/
theorem copyRange_eq_zipRange {src dst : View} {n : Nat} (apart : src.Apart dst n)
    (first count : Nat) (s : Store α) (inside : first + count ≤ n) :
    copyRange src dst first count s = zipRange (fun x _ => x) src dst first count s := by
  -- The elements to copy are read beforehand, but no write comes before a read of its position.
  unfold copyRange
  induction count generalizing first s with
  | zero => cases found : s.blocks[src.block]? <;> simp [contentsFrom, writeFrom, zipRange, found]
  | succ count ih =>
    rw [toList_contentsFrom_succ, zipRange]
    cases found : s.read? src first with
    | none =>
      -- Once the source has ended, there is nothing to write and nothing to combine.
      have rest := ih (first + 1) s (by omega)
      simp only [Option.toList_none, List.nil_append]
      rw [toList_contentsFrom_past found] at rest ⊢
      simpa only [writeFrom] using rest
    | some x =>
      simp only [Option.toList_some, List.cons_append, List.nil_append, writeFrom]
      rw [← ih (first + 1) (s.modify dst first (fun _ => x)) (by omega)]
      -- The rest of the source reads the same before and after the first write.
      congr 2
      refine contentsFrom_congr (fun i low high => (read?_modify_of_ne s src dst i first _ ?_).symm)
      intro same
      have order := apart same
      omega

/-- A range is changed in one go or in two. -/
theorem mapRange_add (f : α → α) (v : View) (first a b : Nat) (s : Store α) :
    mapRange f v first (a + b) s = mapRange f v (first + a) b (mapRange f v first a s) := by
  -- The elements come in the same order either way.
  induction a generalizing first s with
  | zero => simp [mapRange]
  | succ a ih =>
    have longer : a + 1 + b = a + b + 1 := by omega
    rw [longer, mapRange, ih, mapRange, Nat.add_assoc first 1 a, Nat.add_comm 1 a]

/-- Two ranges are combined in one go or in two. -/
theorem zipRange_add (f : α → α → α) (src dst : View) (first a b : Nat) (s : Store α) :
    zipRange f src dst first (a + b) s =
      zipRange f src dst (first + a) b (zipRange f src dst first a s) := by
  -- The elements come in the same order either way, with or without a source to read.
  induction a generalizing first s with
  | zero => simp [zipRange]
  | succ a ih =>
    have longer : a + 1 + b = a + b + 1 := by omega
    rw [longer, zipRange, zipRange]
    cases s.read? src first with
    | none => simp only [ih, Nat.add_assoc first 1 a, Nat.add_comm 1 a]
    | some x => simp only [ih, Nat.add_assoc first 1 a, Nat.add_comm 1 a]

/-- A view of at least `n` positions, of which the first `n` all hold a number. -/
structure Reaches (s : Store α) (v : View) (n : Nat) : Prop where
  long : n ≤ v.length
  there : ∀ p < n, (s.read? v p).isSome

/-- A view of at least `n` positions, of which the first `n` hold the numbers of a function. -/
structure Shows (s : Store α) (v : View) (n : Nat) (f : Nat → α) : Prop where
  long : n ≤ v.length
  holds : ∀ p < n, s.read? v p = some (f p)

/-- What is shown is there. -/
theorem Shows.reaches {s : Store α} {v : View} {n : Nat} {f : Nat → α} (shown : s.Shows v n f) :
    s.Reaches v n := ⟨shown.long, fun p below => by simp [shown.holds p below]⟩

/-- A stretch of what a view shows is shown by the rest of the view from there. -/
theorem Shows.drop {s : Store α} {v : View} {n m : Nat} {f : Nat → α} (shown : s.Shows v n f)
    (k : Nat) (inside : k + m ≤ n) : s.Shows (v.drop k) m (fun p => f (k + p)) where
  long := by
    have := shown.long
    simp only [View.drop]
    omega
  holds p below := by
    -- A position counts from the start of the stretch.
    have held := shown.holds (k + p) (by omega)
    simpa only [read?_eq, View.drop, Nat.add_assoc] using held

/-- A function that agrees on the positions is shown as well. -/
theorem Shows.congr {s : Store α} {v : View} {n : Nat} {f g : Nat → α} (shown : s.Shows v n f)
    (same : ∀ p < n, f p = g p) : s.Shows v n g :=
  -- Nothing is said about other positions.
  ⟨shown.long, fun p below => by rw [shown.holds p below, same p below]⟩

/-- Two stores, the second one later, that differ in a region and in new blocks only. -/
structure Changes (region : Region) (s t : Store α) : Prop where
  grows : s.blocks.size ≤ t.blocks.size
  /-- No position appears in a block, and none disappears. -/
  present : ∀ block i, block < s.blocks.size →
    (t.cell? block i).isSome = (s.cell? block i).isSome
  keeps : ∀ block i, block < s.blocks.size → ¬ region block i →
    t.cell? block i = s.cell? block i

namespace Changes

variable {region inner : Region} {s t u : Store α}

/-- A store does not differ from itself. -/
theorem refl (region : Region) (s : Store α) : Changes region s s :=
  -- It has the same blocks with the same elements.
  ⟨Nat.le_refl _, fun _ _ _ => rfl, fun _ _ _ _ => rfl⟩

/-- Changes follow each other; those of the second step may also lie in the first one's blocks. -/
theorem trans (first : Changes region s t) (second : Changes inner t u)
    (covered : ∀ block i, block < s.blocks.size → inner block i → region block i) :
    Changes region s u where
  grows := Nat.le_trans first.grows second.grows
  present block i old := by
    rw [second.present block i (Nat.lt_of_lt_of_le old first.grows), first.present block i old]
  keeps block i old outside := by
    -- What is outside of the larger region is outside of the smaller one.
    rw [second.keeps block i (Nat.lt_of_lt_of_le old first.grows)
      (fun inside => outside (covered block i old inside)), first.keeps block i old outside]

/-- Changes in a region are changes in a larger one. -/
theorem mono (changed : Changes inner s t) (covered : ∀ block i, inner block i → region block i) :
    Changes region s t where
  -- What lies outside of the larger region lies outside of the smaller one.
  grows := changed.grows
  present := changed.present
  keeps block i old outside :=
    changed.keeps block i old (fun inside => outside (covered block i inside))

/-- A view outside of the region shows what it showed before. -/
theorem shows (changed : Changes region s t) {v : View} {n : Nat} {f : Nat → α}
    (shown : s.Shows v n f) (outside : ∀ p < n, ¬ region v.block (v.start + p)) :
    t.Shows v n f where
  long := shown.long
  holds p below := by
    have held := shown.holds p below
    rw [read?_eq] at held ⊢
    -- What holds a number lies in an old block, where only the region changes.
    rw [changed.keeps _ _ (lt_size_of_cell? held) (outside p below), held]

/-- The positions of a view stay where they are. -/
theorem reaches (changed : Changes region s t) {v : View} {n : Nat} (reached : s.Reaches v n) :
    t.Reaches v n where
  long := reached.long
  there p below := by
    obtain ⟨x, held⟩ := Option.isSome_iff_exists.mp (reached.there p below)
    rw [read?_eq] at held ⊢
    -- No position disappears from an old block.
    rw [changed.present _ _ (lt_size_of_cell? held), held]
    rfl

end Changes

/-- A new block changes none of the others. -/
theorem changes_push (s : Store α) (data : Array α) (region : Region) :
    Changes region s (s.push data).2 where
  -- The new block has a number that no block had before.
  grows := by simp [push]
  present block i old := by rw [cell?_push, if_neg (by omega)]
  keeps block i old _ := by rw [cell?_push, if_neg (by omega)]

/-- Changing a range of a view changes its positions. -/
theorem changes_mapRange (f : α → α) (v : View) (n : Nat) (s : Store α) :
    Changes (v.spots n) s (mapRange f v 0 n s) where
  grows := by simp
  present block i _ := by
    -- A number is replaced by a number.
    rw [cell?_mapRange]
    split
    · simp
    · rfl
  keeps block i _ outside := by
    rw [cell?_mapRange, if_neg (by simpa [View.spots] using outside)]

/-- A view shows the images of what it showed before its range was changed. -/
theorem shows_mapRange (f : α → α) {v : View} {n : Nat} {s : Store α} {g : Nat → α}
    (shown : s.Shows v n g) : (mapRange f v 0 n s).Shows v n (fun p => f (g p)) where
  -- Each position is changed once.
  long := shown.long
  holds p below := by
    have held := shown.holds p below
    rw [read?_eq] at held ⊢
    rw [cell?_mapRange, if_pos (by omega), held]
    rfl

/-- A view shows a constant after its range was set to it. -/
theorem shows_mapRange_const (x : α) {v : View} {n : Nat} {s : Store α} (reached : s.Reaches v n) :
    (mapRange (fun _ => x) v 0 n s).Shows v n (fun _ => x) where
  long := reached.long
  holds p below := by
    -- Whatever number was there, it is the constant now.
    obtain ⟨y, held⟩ := Option.isSome_iff_exists.mp (reached.there p below)
    rw [read?_eq] at held ⊢
    rw [cell?_mapRange, if_pos (by omega), held]
    rfl

/-- Combining a source into a destination apart from it changes the destination's positions. -/
theorem changes_zipRange (f : α → α → α) {src dst : View} {n : Nat} (apart : src.Apart dst n)
    (s : Store α) : Changes (dst.spots n) s (zipRange f src dst 0 n s) where
  grows := by simp
  present block i _ := by
    -- With or without a source, a number stays a number.
    rw [cell?_zipRange f apart 0 n s (by omega)]
    split
    · cases s.read? src (i - dst.start) <;> simp
    · rfl
  keeps block i _ outside := by
    rw [cell?_zipRange f apart 0 n s (by omega), if_neg (by simpa [View.spots] using outside)]

/-- A destination shows the combinations of what it and a source apart from it showed. -/
theorem shows_zipRange (f : α → α → α) {src dst : View} {n : Nat} (apart : src.Apart dst n)
    {s : Store α} {g k : Nat → α} (source : s.Shows src n g) (target : s.Shows dst n k) :
    (zipRange f src dst 0 n s).Shows dst n (fun p => f (g p) (k p)) where
  long := target.long
  holds p below := by
    -- The source of a position is the element of the same index.
    have held := target.holds p below
    have position : dst.start + p - dst.start = p := by omega
    rw [read?_eq] at held ⊢
    rw [cell?_zipRange f apart 0 n s (by omega), if_pos (by omega), position,
      source.holds p below, held]
    rfl

/-- Copying no elements changes nothing. -/
theorem copyRange_zero (src dst : View) (first : Nat) (s : Store α) :
    copyRange src dst first 0 s = s := by
  -- There is nothing to write, whether the source has a block or not.
  cases found : s.blocks[src.block]? <;> simp [copyRange, contentsFrom, writeFrom, found]

/-- Copying to a destination apart from the source is done in one go or in two. -/
theorem copyRange_add {src dst : View} {n : Nat} (apart : src.Apart dst n) (first a b : Nat)
    (s : Store α) (inside : first + a + b ≤ n) :
    copyRange src dst first (a + b) s =
      copyRange src dst (first + a) b (copyRange src dst first a s) := by
  -- Element by element, copying is combining, which is known to split.
  rw [copyRange_eq_zipRange apart first (a + b) s (by omega),
    copyRange_eq_zipRange apart first a s (by omega),
    copyRange_eq_zipRange apart (first + a) b _ (by omega), zipRange_add]

/-- Copying to a destination apart from the source changes the destination's positions. -/
theorem changes_copyRange {src dst : View} {n : Nat} (apart : src.Apart dst n) (s : Store α) :
    Changes (dst.spots n) s (copyRange src dst 0 n s) := by
  -- Copying is combining that keeps only the element of the source.
  rw [copyRange_eq_zipRange apart 0 n s (by omega)]
  exact changes_zipRange _ apart s

/-- A destination shows what a source apart from it showed before it was copied. -/
theorem shows_copyRange {src dst : View} {n : Nat} (apart : src.Apart dst n) {s : Store α}
    {g : Nat → α} (source : s.Shows src n g) (target : s.Reaches dst n) :
    (copyRange src dst 0 n s).Shows dst n g where
  long := target.long
  holds p below := by
    -- The destination held some number, which the one from the source replaces.
    obtain ⟨y, held⟩ := Option.isSome_iff_exists.mp (target.there p below)
    have position : dst.start + p - dst.start = p := by omega
    rw [read?_eq] at held ⊢
    rw [copyRange_eq_zipRange apart 0 n s (by omega), cell?_zipRange _ apart 0 n s (by omega),
      if_pos (by omega), position, source.holds p below, held]
    rfl

end Store

end Tangent
