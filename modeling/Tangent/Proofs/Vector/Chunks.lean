import Tangent.Proofs.Vector.Kernels
import Tangent.Proofs.Vector.Ranges

/-!
Kernels that work chunk by chunk.

A range is cut into chunks that share no index and leave none out. A kernel changes each element on
its own, so the chunks may be worked on in any order, and the result is that of a plain loop.
-/

namespace Tangent

variable {ε α : Type}

namespace Store

/-- Stores with the same numbers at all positions are the same. -/
theorem eq_of_cell? {s t : Store α} (size : s.blocks.size = t.blocks.size)
    (cells : ∀ block i, s.cell? block i = t.cell? block i) : s = t := by
  -- Blocks are compared one by one, and each of them element by element.
  have same : s.blocks = t.blocks := by
    refine Array.ext size (fun block here there => ?_)
    refine Array.ext_getElem? (fun i => ?_)
    have cell := cells block i
    rwa [cell?, cell?, Array.getElem?_eq_getElem here, Array.getElem?_eq_getElem there] at cell
  cases s
  cases t
  exact congrArg _ same

/-- What is done to an element matters only for the number it is. -/
theorem modify_congr {s : Store α} {v : View} {i : Nat} {f g : α → α}
    (same : ∀ x, s.read? v i = some x → f x = g x) : s.modify v i f = s.modify v i g := by
  refine eq_of_cell? (by simp) (fun block j => ?_)
  -- A position is this element or it is left alone.
  rw [cell?_modify, cell?_modify]
  split
  · rename_i here
    refine Option.map_congr (fun x held => same x ?_)
    rwa [read?_eq, ← here.1, ← here.2]
  · rfl

/-- Doing nothing to an element changes nothing. -/
theorem modify_id (s : Store α) (v : View) (i : Nat) : s.modify v i (fun x => x) = s := by
  -- Cell by cell, the one element is replaced by itself.
  refine eq_of_cell? (by simp) (fun block j => ?_)
  rw [cell?_modify]
  split <;> simp

/-- Combining a range with itself changes each element on its own. -/
theorem zipRange_self (f : α → α → α) {src dst : View} (block : src.block = dst.block)
    (start : src.start = dst.start) (first count : Nat) (s : Store α) :
    zipRange f src dst first count s = mapRange (fun x => f x x) dst first count s := by
  -- Each step reads the element that it is about to change, which no earlier step has touched.
  induction count generalizing first s with
  | zero => rfl
  | succ count ih =>
    have read : s.read? src first = s.read? dst first := by rw [read?_eq, read?_eq, block, start]
    rw [zipRange, mapRange, read]
    cases found : s.read? dst first with
    | none =>
      -- Where nothing is, nothing is changed.
      have still : s.modify dst first (fun x => f x x) = s := by
        refine (modify_congr (fun x held => ?_)).trans (modify_id s dst first)
        rw [found] at held
        cases held
      rw [still]
      exact ih (first + 1) s
    | some x =>
      have once : s.modify dst first (f x) = s.modify dst first (fun x => f x x) := by
        refine modify_congr (fun y held => ?_)
        rw [Option.some.inj (found.symm.trans held)]
      rw [← once]
      exact ih (first + 1) _

/-- Copying a range to itself changes nothing. -/
theorem copyRange_self {src dst : View} (block : src.block = dst.block)
    (start : src.start = dst.start) (first count : Nat) (s : Store α) :
    copyRange src dst first count s = s := by
  unfold copyRange
  induction count generalizing first with
  | zero => exact copyRange_zero src dst first s
  | succ count ih =>
    have read : s.read? src first = s.read? dst first := by rw [read?_eq, read?_eq, block, start]
    rw [toList_contentsFrom_succ, read]
    cases found : s.read? dst first with
    | none => exact (toList_contentsFrom_past (read.trans found) count ▸ rfl)
    | some x =>
      -- The number that is written is the one that is there.
      have still : s.modify dst first (fun _ => x) = s := by
        refine (modify_congr (fun y held => ?_)).trans (modify_id s dst first)
        exact Option.some.inj (found.symm.trans held)
      simp only [Option.toList_some, List.cons_append, List.nil_append, writeFrom, still]
      exact ih (first + 1)

/-- Changing each element on its own to itself changes nothing. -/
theorem mapRange_id (v : View) (first count : Nat) (s : Store α) :
    mapRange (fun x => x) v first count s = s := by
  -- Cell by cell, those in the range are replaced by themselves.
  refine eq_of_cell? (by simp) (fun block i => ?_)
  rw [cell?_mapRange]
  split <;> simp

/-- Ranges that follow each other are changed in either order. -/
theorem mapRange_swap (f : α → α) (v : View) {a k b : Nat} (apart : a + k ≤ b) (l : Nat)
    (s : Store α) :
    mapRange f v b l (mapRange f v a k s) = mapRange f v a k (mapRange f v b l s) := by
  refine eq_of_cell? (by simp) (fun block i => ?_)
  simp only [cell?_mapRange]
  -- A position lies in one of the two ranges at most.
  by_cases early : block = v.block ∧ v.start + a ≤ i ∧ i < v.start + a + k
  · have late : ¬ (block = v.block ∧ v.start + b ≤ i ∧ i < v.start + b + l) := by omega
    rw [if_neg late, if_pos early, if_pos early, if_neg late]
  · simp only [early, if_false]

/-- A source apart from a destination reads as before once elements are combined into it. -/
theorem read?_zipRange (f : α → α → α) {src dst : View} {n : Nat} (apart : src.Apart dst n)
    (first count : Nat) (s : Store α) (inside : first + count ≤ n) {p : Nat} (below : p < n) :
    (zipRange f src dst first count s).read? src p = s.read? src p := by
  -- The changed cells are those of the destination, and none of them is read.
  rw [read?_eq, cell?_zipRange f apart first count s inside, if_neg, read?_eq]
  rintro ⟨same, low, high⟩
  have order := apart same
  omega

/-- Ranges that follow each other are combined from a source apart in either order. -/
theorem zipRange_swap (f : α → α → α) {src dst : View} {n a k b l : Nat}
    (separate : src.Apart dst n) (apart : a + k ≤ b) (inside : b + l ≤ n) (s : Store α) :
    zipRange f src dst b l (zipRange f src dst a k s) =
      zipRange f src dst a k (zipRange f src dst b l s) := by
  -- Neither step changes what the other one reads, be it in the source or in the destination.
  refine eq_of_cell? (by simp) (fun block i => ?_)
  simp only [cell?_zipRange f separate b l _ inside,
    cell?_zipRange f separate a k _ (by omega : a + k ≤ n)]
  by_cases early : block = dst.block ∧ dst.start + a ≤ i ∧ i < dst.start + a + k
  · have late : ¬ (block = dst.block ∧ dst.start + b ≤ i ∧ i < dst.start + b + l) := by omega
    rw [if_neg late, if_pos early, if_pos early, if_neg late,
      read?_zipRange f separate b l s inside (by omega)]
  · by_cases late : block = dst.block ∧ dst.start + b ≤ i ∧ i < dst.start + b + l
    · rw [if_pos late, if_neg early, if_neg early, if_pos late,
        read?_zipRange f separate a k s (by omega) (by omega)]
    · simp only [early, late, if_false]

end Store

/-- The indices of a chunk. -/
def indices (chunk : Int64 × Int64) : Set Int := Set.Ico chunk.1.toInt chunk.2.toInt

/-- Chunks that all have indices, share none of them, and together have those of a range. -/
structure Partitions (chunks : List (Int64 × Int64)) (range : Set Int) : Prop where
  nonempty : ∀ chunk ∈ chunks, (indices chunk).Nonempty
  disjoint : chunks.Pairwise (fun a b => Disjoint (indices a) (indices b))
  union : ⋃ chunk ∈ chunks, indices chunk = range

namespace Tiles

variable {last first : Nat} {chunks : List (Int64 × Int64)}

/-- Chunks that follow each other lie in their range, and none is empty. -/
theorem bounds (tiles : Tiles last first chunks) : ∀ chunk ∈ chunks,
    first ≤ chunk.1.toInt ∧ chunk.1.toInt < chunk.2.toInt ∧ chunk.2.toInt ≤ last := by
  -- The first chunk starts where the range does, and the others lie behind it.
  induction tiles with
  | done => simp
  | @chunk first next a b rest starts ends nonempty after ih =>
    intro chunk listed
    have fits := after.le
    rcases List.mem_cons.mp listed with rfl | later
    · simp only [starts, ends]
      omega
    · have := ih chunk later
      omega

/-- Chunks that follow each other come in ascending order. -/
theorem ordered (tiles : Tiles last first chunks) :
    chunks.Pairwise (fun a b => a.2.toInt ≤ b.1.toInt) := by
  -- A later chunk starts where an earlier one ends, or behind it.
  induction tiles with
  | done => exact .nil
  | chunk next starts ends nonempty after ih =>
    refine List.pairwise_cons.mpr ⟨fun chunk later => ?_, ih⟩
    rw [ends]
    exact (after.bounds chunk later).1

/-- Chunks that follow each other have all indices of their range, and no others. -/
theorem union_indices (tiles : Tiles last first chunks) :
    ⋃ chunk ∈ chunks, indices chunk = Set.Ico (first : Int) last := by
  induction tiles with
  | done => simp
  | @chunk first next a b rest starts ends nonempty after ih =>
    -- What the first chunk has ends where the others start.
    have own : indices (a, b) = Set.Ico (first : Int) next := by rw [indices, starts, ends]
    have fits := after.le
    simp only [List.mem_cons, Set.iUnion_iUnion_eq_or_left, ih, own]
    exact Set.Ico_union_Ico_eq_Ico (by omega) (by omega)

/-- Chunks that follow each other partition their range. -/
theorem partitions (tiles : Tiles last first chunks) :
    Partitions chunks (Set.Ico (first : Int) last) where
  -- An index of two chunks would lie before the end of one and behind the start of the later one.
  nonempty chunk listed := Set.nonempty_Ico.mpr (tiles.bounds chunk listed).2.1
  disjoint := by
    refine tiles.ordered.imp (fun follow => ?_)
    refine Set.disjoint_left.mpr (fun k here there => ?_)
    exact absurd (here.2.trans_le follow) (not_lt.mpr there.1)
  union := tiles.union_indices

/-- Of two chunks one ends before the other starts. -/
theorem apart (tiles : Tiles last first chunks) {a b : Int64 × Int64} (one : a ∈ chunks)
    (other : b ∈ chunks) (different : a ≠ b) :
    a.2.toInt ≤ b.1.toInt ∨ b.2.toInt ≤ a.1.toInt := by
  have pairs : chunks.Pairwise (fun a b => a.2.toInt ≤ b.1.toInt ∨ b.2.toInt ≤ a.1.toInt) :=
    tiles.ordered.imp (fun follow => .inl follow)
  -- Which of the two comes first does not matter.
  have : Std.Symm (fun a b : Int64 × Int64 => a.2.toInt ≤ b.1.toInt ∨ b.2.toInt ≤ a.1.toInt) :=
    ⟨fun _ _ either => either.symm⟩
  exact pairs.forall one other different

end Tiles

/-- The turns of a loop over a range from a start on, which there are only if the loop ends. -/
inductive Turns (n step : Int64) : Int64 → List (Int64 × Int64) → Prop
  | stop {start : Int64} (past : ¬ start < n) : Turns n step start []
  | turn {start : Int64} {rest : List (Int64 × Int64)} (inside : start < n)
      (later : Turns n step (start + step) rest) :
      Turns n step start ((start, min (start + step) n) :: rest)

namespace Chunking

/-- The chunks that a range of `n` indices is cut into, by a loop that ends after them. -/
inductive Cuts (c : Chunking) (n : Int64) : List (Int64 × Int64) → Prop
  | none (empty : n ≤ 0) : c.Cuts n []
  | whole (some : ¬ n ≤ 0) (little : (!c.enabled || c.workers < 2 || n < 2 * c.smallest) = true) :
      c.Cuts n [(0, n)]
  | shares {chunks : List (Int64 × Int64)} (some : ¬ n ≤ 0)
      (much : ¬ (!c.enabled || c.workers < 2 || n < 2 * c.smallest) = true)
      (ends : Turns n (max ((n + c.workers - 1) / c.workers) c.smallest) 0 chunks) : c.Cuts n chunks

end Chunking

/-- Chunks that follow each other up to the end of a range are the turns of a loop. -/
theorem turns_of_tiles {n step : Int64} {last : Nat} (whole : n.toInt = last) (fuel : Nat) :
    ∀ (start : Int64) (first : Nat), start.toInt = first →
      Tiles last first (chunksFrom n step start fuel) →
      Turns n step start (chunksFrom n step start fuel) := by
  -- Chunks that reach the end of the range cannot have run out of fuel before it.
  induction fuel with
  | zero =>
    intro start first starts tiles
    -- Without a chunk the loop is at its end.
    cases tiles with
    | done => exact .stop (by rw [Int64.lt_iff_toInt_lt]; omega)
  | succ fuel ih =>
    intro start first starts tiles
    rw [chunksFrom] at tiles ⊢
    split at tiles
    · rename_i inside
      rw [if_pos inside]
      refine .turn inside ?_
      cases tiles with
      | chunk next _ ends _ after =>
        by_cases more : start + step < n
        · -- The chunk ends where the next turn starts.
          have short : min (start + step) n = start + step := if_pos (Int64.le_of_lt more)
          exact ih _ next (short ▸ ends) after
        · -- The last chunk is cut, and the next start lies behind the range.
          have none : chunksFrom n step (start + step) fuel = [] := by
            cases fuel with
            | zero => rfl
            | succ fuel => exact if_neg more
          rw [none]
          exact .stop more
    · rename_i past
      rw [if_neg past]
      exact .stop past

namespace Chunking

variable {c : Chunking} {n : Int64} (small : n.toInt ≤ 2 ^ 62)
  (regular : 1 ≤ c.smallest.toInt ∨ n.toInt + c.workers.toInt - 1 < 2 ^ 63)
include small regular

/-- The chunks of a range that is not too long follow each other from its first index on. -/
theorem tiles_chunks : Tiles n.toNatClampNeg 0 (c.chunks n) := by
  by_cases empty : n ≤ 0
  · -- No indices make no chunks.
    have none : n.toNatClampNeg = 0 := Int.toNat_of_nonpos (Int64.le_iff_toInt_le.mp empty)
    rw [chunks, if_pos empty, none]
    exact .done
  · obtain ⟨m, rfl, count⟩ := exists_eq_ofNat (Int64.le_of_lt (Int64.not_le.mp empty))
    have same : (Int64.ofNat m).toNatClampNeg = m := by
      rw [Int64.toNatClampNeg, count, Int.toNat_natCast]
    have proper : c.Proper m := ⟨by omega, by rwa [count] at regular⟩
    rw [same]
    exact proper.tiles

/-- The loop that cuts a range that is not too long ends. -/
theorem cuts_chunks : c.Cuts n (c.chunks n) := by
  have tiles := tiles_chunks small regular
  -- The cases are those of the cut: nothing, one chunk, or a loop.
  unfold chunks at tiles ⊢
  split at tiles
  · rename_i empty
    rw [if_pos empty]
    exact .none empty
  · rename_i some
    rw [if_neg some]
    have whole : n.toInt = n.toNatClampNeg := by
      have := Int64.lt_iff_toInt_lt.mp (Int64.not_le.mp some)
      rw [Int64.toInt_zero] at this
      rw [Int64.toNatClampNeg]
      omega
    split at tiles
    · rename_i little
      rw [if_pos little]
      exact .whole some little
    · rename_i much
      rw [if_neg much]
      exact .shares some much (turns_of_tiles whole _ 0 0 Int64.toInt_zero tiles)

end Chunking

/-- A step on ranges of the first `n` indices that can be cut in two, and made in either order. -/
structure Rangewise (n : Nat) (step : Nat → Nat → Store α → Store α) : Prop where
  still : ∀ start s, step start 0 s = s
  split : ∀ start a b s, start + a + b ≤ n →
    step start (a + b) s = step (start + a) b (step start a s)
  swap : ∀ a k b l s, a + k ≤ b → b + l ≤ n →
    step b l (step a k s) = step a k (step b l s)

/-- Changing each element on its own is done in ranges. -/
theorem rangewise_mapRange (f : α → α) (v : View) (n : Nat) :
    Rangewise n (Store.mapRange f v) where
  -- Ranges next to each other add up, and ranges apart may be swapped.
  still _ _ := rfl
  split start a b s _ := Store.mapRange_add f v start a b s
  swap _ _ _ l s apart _ := Store.mapRange_swap f v apart l s

/-- Two views that start at the same element, or have no element in common in a range. -/
def View.Clear (a b : View) (n : Nat) : Prop :=
  a.Apart b n ∨ a.block = b.block ∧ a.start = b.start

section Kernels

variable [Elem α]

/-- An operation on a buffer and itself changes each element on its own. -/
theorem Binary.onRange_self (op : Binary) {src dst : View} (block : src.block = dst.block)
    (start : src.start = dst.start) (first count : Nat) (s : Store α) :
    op.onRange src dst first count s =
      Store.mapRange (fun x => op.apply x x) dst first count s := by
  -- A copy of a buffer to itself changes nothing, and the others combine each element with itself.
  cases op with
  | copy =>
    exact (Store.copyRange_self block start first count s).trans
      (Store.mapRange_id dst first count s).symm
  | add => exact Store.zipRange_self _ block start first count s
  | mul => exact Store.zipRange_self _ block start first count s

/-- An operation on one buffer is done in ranges. -/
theorem Unary.rangewise (op : Unary α) (dst : View) (n : Nat) : Rangewise n (op.onRange dst) :=
  -- Each element is changed on its own.
  rangewise_mapRange op.apply dst n

/-- An operation on buffers that are clear of each other is done in ranges. -/
theorem Binary.rangewise (op : Binary) {src dst : View} {n : Nat} (clear : src.Clear dst n) :
    Rangewise n (op.onRange src dst : Nat → Nat → Store α → Store α) := by
  -- Apart from each other the buffers are combined, and a buffer with itself is changed alone.
  rcases clear with apart | ⟨block, start⟩
  · -- Where the buffers are apart, no step reads what another one has written.
    refine ⟨op.onRange_zero src dst, op.onRange_add apart, fun a k b l s follow inside => ?_⟩
    simp only [op.onRange_eq apart a k _ (by omega : a + k ≤ n), op.onRange_eq apart b l _ inside]
    exact Store.zipRange_swap op.apply apart follow inside s
  · have same : (op.onRange src dst : Nat → Nat → Store α → Store α) =
        Store.mapRange (fun x => op.apply x x) dst := by
      funext first count s
      exact op.onRange_self block start first count s
    rw [same]
    exact rangewise_mapRange _ dst n

end Kernels

/-- A store after a step was taken on chunks, one after the other. -/
def Store.overChunks (step : Nat → Nat → Store α → Store α) (order : List (Int64 × Int64))
    (s : Store α) : Store α :=
  order.foldl (fun s chunk =>
    step chunk.1.toNatClampNeg (chunk.2.toNatClampNeg - chunk.1.toNatClampNeg) s) s

/-- A step on ranges is made on the chunks of a range in whatever order. -/
theorem Rangewise.overChunks_eq {n : Nat} {step : Nat → Nat → Store α → Store α}
    (rangewise : Rangewise n step) {chunks order : List (Int64 × Int64)}
    (tiles : Tiles n 0 chunks) (reordered : order.Perm chunks) (s : Store α) :
    Store.overChunks step order s = step 0 n s := by
  have clamped (x : Int64) : x.toNatClampNeg = x.toInt.toNat := rfl
  -- Two chunks have no index in common, so their steps are made in either order.
  have sorted : Store.overChunks step order s = Store.overChunks step chunks s := by
    refine reordered.foldl_eq' (fun a one b other z => ?_) s
    by_cases same : a = b
    · rw [same]
    have own := tiles.bounds a (reordered.mem_iff.mp one)
    have its := tiles.bounds b (reordered.mem_iff.mp other)
    simp only [clamped]
    rcases tiles.apart (reordered.mem_iff.mp one) (reordered.mem_iff.mp other) same with
      before | after
    · exact rangewise.swap _ _ _ _ z (by omega) (by omega)
    · exact (rangewise.swap _ _ _ _ z (by omega) (by omega)).symm
  exact sorted.trans (tiles.foldl_eq step rangewise.still rangewise.split s)

/-- A store in which the first `n` elements of a buffer were replaced, and nothing else. -/
structure Store.Replaced (s t : Store α) (v : View) (n : Nat) (f : Nat → α) : Prop where
  shows : t.Shows v n f
  keeps : ∀ block i, ¬ v.spots n block i → t.cell? block i = s.cell? block i

/-- A buffer apart from the one that was replaced shows what it showed. -/
theorem Store.Replaced.shows_apart {s t : Store α} {v w : View} {n : Nat} {f g : Nat → α}
    (replaced : s.Replaced t v n f) (shown : s.Shows w n g) (apart : w.Apart v n) :
    t.Shows w n g where
  -- A cell that is read lies outside of what was replaced.
  long := shown.long
  holds p below := by
    have held := shown.holds p below
    rw [read?_eq] at held ⊢
    rw [replaced.keeps _ _ ?_, held]
    rintro ⟨same, low, high⟩
    have order := apart same
    omega

/-- Changing each element of a range on its own replaces it. -/
theorem Store.replaced_mapRange (f : α → α) {v : View} {n : Nat} {s : Store α} {g : Nat → α}
    (shown : s.Shows v n g) : s.Replaced (mapRange f v 0 n s) v n (fun p => f (g p)) where
  -- Cells outside of the range are not touched.
  shows := shows_mapRange f shown
  keeps block i outside := by
    rw [cell?_mapRange, if_neg (by simpa [View.spots] using outside)]

section Kernels

variable [Elem α] {n : Nat} {s : Store α} {src dst : View} {f g : Nat → α}

/-- An operation on a buffer replaces its elements by what the operation makes of them. -/
theorem Unary.replaced (op : Unary α) (shown : s.Shows dst n f) :
    s.Replaced (op.onRange dst 0 n s) dst n (fun p => op.apply (f p)) :=
  -- Each element is changed on its own.
  Store.replaced_mapRange op.apply shown

/-- An operation on two buffers replaces the second by what it makes of both. -/
theorem Binary.replaced (op : Binary) (clear : src.Clear dst n) (source : s.Shows src n g)
    (target : s.Shows dst n f) :
    s.Replaced (op.onRange src dst 0 n s) dst n (fun p => op.apply (g p) (f p)) := by
  rcases clear with apart | ⟨block, start⟩
  · -- Each element is combined with the one of the source, which stays as it is.
    rw [op.onRange_eq apart 0 n s (by omega)]
    refine ⟨Store.shows_zipRange op.apply apart source target, fun block i outside => ?_⟩
    rw [Store.cell?_zipRange _ apart 0 n s (by omega), if_neg (by simpa [View.spots] using outside)]
  · -- Both buffers show the same numbers.
    have same (p : Nat) (below : p < n) : f p = g p := by
      have held := target.holds p below
      rw [Store.read?_eq, ← block, ← start, ← Store.read?_eq, source.holds p below] at held
      exact (Option.some.inj held).symm
    rw [op.onRange_self block start 0 n s]
    have replaced := Store.replaced_mapRange (fun x => op.apply x x) target
    exact ⟨replaced.shows.congr (fun p below => by rw [same p below]), replaced.keeps⟩

end Kernels

/--
Kernels that work chunk by chunk do what a plain loop does.

Let a range be not too long, and the size of its chunks be computed without wrapping around unless
there is a least size. Then the loop that cuts the range ends. Its chunks are not empty, share no
index and have all indices of the range, and an empty range has none. Kernels on buffers that are
long enough, and either have no element in common or are the same, go through. In whatever order the
chunks are worked on, the store is that after a plain loop over the range: the elements of the
destination are replaced one by one, and everything else is as it was.
-/
theorem chunked_kernels_eq_loop [Elem α] {c : Chunking} {n : Int64} (small : n.toInt ≤ 2 ^ 62)
    (regular : 1 ≤ c.smallest.toInt ∨ n.toInt + c.workers.toInt - 1 < 2 ^ 63) :
    c.Cuts n (c.chunks n) ∧ Partitions (c.chunks n) (Set.Ico 0 n.toInt) ∧
    (n ≤ 0 → c.chunks n = []) ∧
    ∀ (h : Host α) (order : List (Int64 × Int64)), h.chunking = c → order.Perm (c.chunks n) →
      (∀ (op : Unary α) (dst : View) (f : Nat → α), h.store.Shows dst n.toNatClampNeg f →
        ∃ s, s = op.onRange dst 0 n.toNatClampNeg h.store ∧
          (Host.backend.one op dst n : Action (Host α) ε Unit) h = .ok () { h with store := s } ∧
          Store.overChunks (op.onRange dst) order h.store = s ∧
          h.store.Replaced s dst n.toNatClampNeg (fun p => op.apply (f p))) ∧
      ∀ (op : Binary) (src dst : View) (g f : Nat → α), src.Clear dst n.toNatClampNeg →
        h.store.Shows src n.toNatClampNeg g → h.store.Shows dst n.toNatClampNeg f →
        ∃ s, s = op.onRange src dst 0 n.toNatClampNeg h.store ∧
          (Host.backend.two op src dst n : Action (Host α) ε Unit) h =
            .ok () { h with store := s } ∧
          Store.overChunks (op.onRange src dst) order h.store = s ∧
          h.store.Replaced s dst n.toNatClampNeg (fun p => op.apply (g p) (f p)) ∧
          (src.Apart dst n.toNatClampNeg → s.Shows src n.toNatClampNeg g) := by
  have tiles := Chunking.tiles_chunks small regular
  have range : Set.Ico ((0 : Nat) : Int) n.toNatClampNeg = Set.Ico 0 n.toInt := by
    ext k
    simp only [Set.mem_Ico, Int64.toNatClampNeg]
    omega
  refine ⟨Chunking.cuts_chunks small regular, range ▸ tiles.partitions,
    fun empty => if_pos empty, ?_⟩
  rintro h order rfl reordered
  -- A kernel asks for as many elements as the range has indices.
  have long {v : View} (enough : n.toNatClampNeg ≤ v.length) : n.toInt ≤ v.length := by
    rw [Int64.toNatClampNeg] at enough
    omega
  constructor
  · -- The chunks as they come are one of the orders.
    intro op dst f shown
    have ranges := op.rangewise dst n.toNatClampNeg
    refine ⟨_, rfl, ?_, ranges.overChunks_eq tiles reordered h.store, op.replaced shown⟩
    rw [Host.one_ok op (long shown.long) h, ← ranges.overChunks_eq tiles (.refl _) h.store]
    rfl
  · intro op src dst g f clear source target
    have ranges := op.rangewise (α := α) clear
    have replaced := op.replaced clear source target
    refine ⟨_, rfl, ?_, ranges.overChunks_eq tiles reordered h.store, replaced,
      replaced.shows_apart source⟩
    rw [Host.two_ok op (long source.long) (long target.long) h,
      ← ranges.overChunks_eq tiles (.refl _) h.store]
    rfl

/-- Memory with one block of eight ones, for three workers. -/
def onesHost : Host Float := { Host.new 0 ⟨true, 3, 1⟩ with store := ⟨#[Array.replicate 8 1]⟩ }

/-- Seven elements are added to themselves with the last chunk first, and the eighth stays. -/
theorem chunked_kernels_eq_loop_backwards :
    (7 : Int64).toInt ≤ 2 ^ 62 ∧ 1 ≤ (1 : Int64).toInt ∧
    onesHost.chunking.chunks 7 = [(0, 3), (3, 6), (6, 7)] ∧
    ∃ s : Store Float,
      (Host.backend.two .add ⟨0, 0, 8⟩ ⟨0, 0, 8⟩ 7 : Action (Host Float) Unit Unit) onesHost =
        .ok () { onesHost with store := s } ∧
      Store.overChunks (Binary.onRange .add ⟨0, 0, 8⟩ ⟨0, 0, 8⟩) [(6, 7), (3, 6), (0, 3)]
        onesHost.store = s ∧
      s.Shows ⟨0, 0, 8⟩ 7 (fun _ => 1 + 1) ∧ s.cell? 0 7 = some 1 := by
  -- The seven indices are cut into chunks of three, and there are workers for all of them.
  have small : (7 : Int64).toInt ≤ 2 ^ 62 := by decide
  have least : 1 ≤ (1 : Int64).toInt := by decide
  have cut : onesHost.chunking.chunks 7 = [(0, 3), (3, 6), (6, 7)] := by decide +kernel
  have shown : onesHost.store.Shows ⟨0, 0, 8⟩ 7 (fun _ => 1) := by
    refine ⟨by decide, fun p below => ?_⟩
    show (Array.replicate 8 (1 : Float))[0 + p]? = some 1
    rw [Array.getElem?_replicate, if_pos (by omega)]
  have backwards : [(6, 7), (3, 6), (0, 3)].Perm (onesHost.chunking.chunks 7) := by
    rw [cut]
    decide
  obtain ⟨_, _, _, kernels⟩ := chunked_kernels_eq_loop (α := Float) (ε := Unit)
    (c := onesHost.chunking) small (.inl least)
  obtain ⟨s, _, ran, worked, replaced, _⟩ := (kernels onesHost _ rfl backwards).2 .add ⟨0, 0, 8⟩
    ⟨0, 0, 8⟩ (fun _ => 1) (fun _ => 1) (.inr ⟨rfl, rfl⟩) shown shown
  refine ⟨small, least, cut, s, ran, worked, replaced.shows, ?_⟩
  exact replaced.keeps 0 7 (fun inside => absurd inside.2.2 (by decide))

end Tangent
