import Tangent.Proofs.Vector.Backend
import Tangent.Proofs.Vector.Ranges
import Tangent.Proofs.Vector.Store
import Tangent.Vector.Host

/-! How memory answers when it is used as it is meant to be: kernels, loans and stretches. -/

namespace Tangent

namespace Host

variable {ε α : Type}

/-- The number of elements of the largest block. -/
def room : Nat := largestBlock.toNatClampNeg

/-- The largest block has room for two to the forty-fifth elements. -/
theorem room_eq : room = 2 ^ 45 := rfl

/-- The elements of the largest block can be counted. -/
theorem room_lt : room < 2 ^ 63 := by decide

/-- The elements of a block can be counted. -/
theorem lt_of_le_room {m : Nat} (small : m ≤ room) : m < 2 ^ 63 :=
  -- No block is larger than the largest one.
  Nat.lt_of_le_of_lt small room_lt

/-- A machine integer that counts the elements of a block counts them exactly. -/
theorem toInt_ofNat_of_le_room {m : Nat} (small : m ≤ room) : (Int64.ofNat m).toInt = m :=
  -- A count that fits is the number it stands for.
  Int64.toInt_ofNat_of_lt (lt_of_le_room small)

/-- Memory whose loans lie in its store and whose kernels cut their ranges properly. -/
structure Ready (h : Host α) : Prop where
  lent : ∀ entry ∈ h.live, entry.1 < h.store.blocks.size
  cut : h.chunking.Proper room

/-- Memory stays ready while its store grows. -/
theorem Ready.of_grown {h : Host α} (ready : h.Ready) {s : Store α}
    (grown : h.store.blocks.size ≤ s.blocks.size) : ({ h with store := s } : Host α).Ready :=
  -- The blocks on loan keep their numbers.
  ⟨fun entry found => Nat.lt_of_lt_of_le (ready.lent entry found) grown, ready.cut⟩

/-- A buffer that is long enough is not complained about. -/
theorem need_ok (operation : String) {v : View} {m : Nat} (long : m ≤ v.length)
    (small : m ≤ room) (h : Host α) :
    (need operation v (Int64.ofNat m) : Action (Host α) ε Unit) h = .ok () h := by
  -- The count is exact, so the comparison is that of the two lengths.
  rw [need, toInt_ofNat_of_le_room small, if_neg (by omega)]
  rfl

/-- A step taken chunk by chunk is taken on the whole range. -/
theorem forChunks_ok {h : Host α} (ready : h.Ready) {m : Nat} (small : m ≤ room)
    (step : Nat → Nat → Store α → Store α) (still : ∀ start s, step start 0 s = s)
    (split : ∀ start a b s, start + a + b ≤ m →
      step start (a + b) s = step (start + a) b (step start a s)) :
    (forChunks (Int64.ofNat m) step : Action (Host α) ε Unit) h =
      .ok () { h with store := step 0 m h.store } := by
  -- The chunks tile the range, so their steps add up to one.
  rw [forChunks, Action.modify_apply]
  dsimp only
  rw [(ready.cut.mono small).foldl_eq step still split]

/-- A kernel on each element changes the range of its buffer. -/
theorem mapKernel_ok {h : Host α} (ready : h.Ready) {m : Nat} (small : m ≤ room)
    (operation : String) (f : α → α) {dst : View} (long : m ≤ dst.length) :
    (mapKernel operation f dst (Int64.ofNat m) : Action (Host α) ε Unit) h =
      .ok () { h with store := Store.mapRange f dst 0 m h.store } := by
  -- The length is checked first, then the range is changed chunk by chunk.
  rw [mapKernel, Action.bind_ok (need_ok operation long small h)]
  exact forChunks_ok ready small (Store.mapRange f dst) (fun _ _ => rfl)
    (fun start a b s _ => Store.mapRange_add f dst start a b s)

/-- A kernel that combines changes the range of its destination. -/
theorem zipKernel_ok {h : Host α} (ready : h.Ready) {m : Nat} (small : m ≤ room)
    (operation : String) (f : α → α → α) {src dst : View} (source : m ≤ src.length)
    (target : m ≤ dst.length) :
    (zipKernel operation f src dst (Int64.ofNat m) : Action (Host α) ε Unit) h =
      .ok () { h with store := Store.zipRange f src dst 0 m h.store } := by
  -- Both lengths are checked first, then the ranges are combined chunk by chunk.
  rw [zipKernel, Action.bind_ok (need_ok operation source small h),
    Action.bind_ok (need_ok operation target small h)]
  exact forChunks_ok ready small (Store.zipRange f src dst) (fun _ _ => rfl)
    (fun start a b s _ => Store.zipRange_add f src dst start a b s)

/-- Copying to a destination apart from the source changes the range of the destination. -/
theorem copy_ok {h : Host α} (ready : h.Ready) {m : Nat} (small : m ≤ room) {src dst : View}
    (source : m ≤ src.length) (target : m ≤ dst.length) (apart : src.Apart dst m) :
    (copy src dst (Int64.ofNat m) : Action (Host α) ε Unit) h =
      .ok () { h with store := Store.copyRange src dst 0 m h.store } := by
  -- Both buffers are long enough, so neither is complained about.
  rw [copy, Action.bind_ok (need_ok "copy" source small h),
    Action.bind_ok (need_ok "copy" target small h)]
  exact forChunks_ok ready small (Store.copyRange src dst) (Store.copyRange_zero src dst)
    (fun start a b s inside => Store.copyRange_add apart start a b s inside)

/-- A step on memory that leaves a buffer showing a function, and changes nothing else. -/
def Leaves (h : Host α) (step : Action (Host α) ε Unit) (dst : View) (m : Nat) (f : Nat → α) :
    Prop :=
  ∃ t, step h = .ok () { h with store := t } ∧ Store.Changes (dst.spots m) h.store t ∧
    t.Shows dst m f

section Kernels

variable [Elem α] {h : Host α} {m : Nat} {src dst : View} {f g : Nat → α}

/-- Filling leaves the constant. -/
theorem fill_leaves (ready : h.Ready) (small : m ≤ room) (target : h.store.Reaches dst m) (x : α) :
    h.Leaves (backend.fill dst x (Int64.ofNat m) : Action (Host α) ε Unit) dst m (fun _ => x) :=
  -- The kernel writes the constant to each element of the range, and nowhere else.
  ⟨_, mapKernel_ok ready small "fill" _ target.long, Store.changes_mapRange _ dst m h.store,
    Store.shows_mapRange_const x target⟩

/-- Clearing leaves zeros. -/
theorem zero_leaves (ready : h.Ready) (small : m ≤ room) (target : h.store.Reaches dst m) :
    h.Leaves (backend.zero dst (Int64.ofNat m) : Action (Host α) ε Unit) dst m
      (fun _ => Elem.zero) :=
  -- The kernel writes zero to each element of the range, and nowhere else.
  ⟨_, mapKernel_ok ready small "zero" _ target.long, Store.changes_mapRange _ dst m h.store,
    Store.shows_mapRange_const Elem.zero target⟩

/-- Writing a constant leaves it, or zeros if it counts as zero. -/
theorem set_leaves (ready : h.Ready) (small : m ≤ room) (target : h.store.Reaches dst m) (x : α) :
    h.Leaves (backend.set dst x (Int64.ofNat m) : Action (Host α) ε Unit) dst m
      (fun _ => if Elem.isZero x then Elem.zero else x) := by
  -- The test for zero picks the kernel, and with it what is left.
  unfold Backend.set
  by_cases zero : Elem.isZero x = true
  · simp only [if_pos zero]
    exact zero_leaves ready small target
  · simp only [if_neg zero]
    exact fill_leaves ready small target x

/-- Copying leaves what the source shows. -/
theorem copy_leaves (ready : h.Ready) (small : m ≤ room) (apart : src.Apart dst m)
    (source : h.store.Shows src m f) (target : h.store.Reaches dst m) :
    h.Leaves (backend.copy src dst (Int64.ofNat m) : Action (Host α) ε Unit) dst m f :=
  -- The operands lie apart, so nothing is read after it was written.
  ⟨_, copy_ok ready small source.long target.long apart, Store.changes_copyRange apart h.store,
    Store.shows_copyRange apart source target⟩

/-- Adding leaves the sums of what the destination and the source show. -/
theorem add_leaves (ready : h.Ready) (small : m ≤ room) (apart : src.Apart dst m)
    (source : h.store.Shows src m f) (target : h.store.Shows dst m g) :
    h.Leaves (backend.add src dst (Int64.ofNat m) : Action (Host α) ε Unit) dst m
      (fun p => Elem.add (g p) (f p)) :=
  -- The operands lie apart, so each sum is made from what was there before.
  ⟨_, zipKernel_ok ready small "add" _ source.long target.long,
    Store.changes_zipRange _ apart h.store, Store.shows_zipRange _ apart source target⟩

/-- Multiplying leaves the products of what the destination and the source show. -/
theorem mul_leaves (ready : h.Ready) (small : m ≤ room) (apart : src.Apart dst m)
    (source : h.store.Shows src m f) (target : h.store.Shows dst m g) :
    h.Leaves (backend.mul src dst (Int64.ofNat m) : Action (Host α) ε Unit) dst m
      (fun p => Elem.mul (g p) (f p)) :=
  -- The operands lie apart, so each product is made from what was there before.
  ⟨_, zipKernel_ok ready small "mul" _ source.long target.long,
    Store.changes_zipRange _ apart h.store, Store.shows_zipRange _ apart source target⟩

/-- Taking exponentials leaves those of what the buffer shows. -/
theorem exp_leaves (ready : h.Ready) (small : m ≤ room) (target : h.store.Shows dst m f) :
    h.Leaves (backend.exp dst (Int64.ofNat m) : Action (Host α) ε Unit) dst m
      (fun p => Elem.exp (f p)) :=
  -- Each element is replaced on its own.
  ⟨_, mapKernel_ok ready small "exp" _ target.long, Store.changes_mapRange _ dst m h.store,
    Store.shows_mapRange _ target⟩

end Kernels

/-- Why memory with a limit refuses a block while so many elements are on loan. -/
def refusal (limit inUse requested : Int64) : Option AllocError :=
  -- Without a limit nothing is refused.
  if limit > 0 && inUse + requested > limit then some (.memoryLimit requested inUse limit) else none

/-- Without a limit nothing is refused. -/
theorem refusal_eq_none {limit : Int64} (unlimited : limit ≤ 0) (inUse requested : Int64) :
    refusal limit inUse requested = none := by
  -- The limit is looked at before anything is added up.
  have : ¬ limit > 0 := by
    rw [gt_iff_lt, Int64.lt_iff_toInt_lt]
    rw [Int64.le_iff_toInt_le] at unlimited
    omega
  simp [refusal, this]

/-- The view of the next block of `m` elements. -/
def nextBlock (h : Host α) (m : Nat) : View := ⟨h.store.blocks.size, 0, m⟩

/-- Memory after it has lent a block of `m` elements. -/
def lend (h : Host α) (m : Nat) : Host α :=
  { h with
    store := (h.store.push (Array.ofFn (fun i : Fin m => h.blank h.store.blocks.size i))).2
    live := (h.store.blocks.size, Int64.ofNat m) :: h.live
    liveElements := h.liveElements + Int64.ofNat m }

/-- Memory whose loans lie in its store, so that a new block has a number of its own. -/
def Numbered (h : Host α) : Prop := ∀ entry ∈ h.live, entry.1 < h.store.blocks.size

/-- What is on loan: the blocks with their sizes, and the sum of these. -/
def loans (h : Host α) : List (Nat × Int64) × Int64 := (h.live, h.liveElements)

/-- A block that is lent is one more. -/
theorem size_lend (h : Host α) (m : Nat) :
    (h.lend m).store.blocks.size = h.store.blocks.size + 1 := by
  -- The block is put behind all others.
  simp [lend, Store.push]

/-- A block that was there is on loan as before. -/
theorem lookup_lend (h : Host α) (m : Nat) {block : Nat} (old : block < h.store.blocks.size) :
    (h.lend m).live.lookup block = h.live.lookup block := by
  -- The new loan has a number that was not in use.
  have differ : (block == h.store.blocks.size) = false := by simpa using Nat.ne_of_lt old
  simp [lend, List.lookup, differ]

/-- A new loan has the last number, and all others have earlier ones. -/
theorem Numbered.lend {h : Host α} (numbered : h.Numbered) (m : Nat) : (h.lend m).Numbered := by
  -- The new block has the number of blocks that were there before it.
  intro entry found
  rw [size_lend]
  rcases List.mem_cons.mp found with rfl | found
  · exact Nat.lt_succ_self _
  · exact Nat.lt_succ_of_lt (numbered entry found)

/-- A refused block changes nothing. -/
theorem alloc_refused {h : Host α} {m : Nat} {cause : AllocError} (positive : 0 < m)
    (small : m ≤ room) (refused : refusal h.limit h.liveElements (Int64.ofNat m) = some cause) :
    (alloc (Int64.ofNat m) : Action (Host α) ε _) h = .ok (.error cause) h := by
  -- The size is proper, so the limit is what the request fails at.
  rw [alloc, if_neg (ofNat_pos positive (lt_of_le_room small)), Action.get_bind]
  unfold refusal at refused
  split at refused
  · rename_i exceeded
    rw [if_pos exceeded]
    simpa using refused
  · simp at refused

/-- A granted block is the next one. -/
theorem alloc_granted {h : Host α} {m : Nat} (positive : 0 < m) (small : m ≤ room)
    (granted : refusal h.limit h.liveElements (Int64.ofNat m) = none) :
    (alloc (Int64.ofNat m) : Action (Host α) ε _) h = .ok (.ok (h.nextBlock m)) (h.lend m) := by
  have bounded := lt_of_le_room small
  have fits : ¬ Int64.ofNat m > largestBlock := by
    have : largestBlock.toInt = 2 ^ 45 := rfl
    rw [room_eq] at small
    rw [gt_iff_lt, Int64.lt_iff_toInt_lt, Int64.toInt_ofNat_of_lt bounded]
    omega
  -- The size occurs in a type, so it is exchanged for all sizes at once.
  have filled : ∀ k, k = m → Array.ofFn (fun i : Fin k => h.blank h.store.blocks.size i) =
      Array.ofFn (fun i : Fin m => h.blank h.store.blocks.size i) := by
    rintro _ rfl
    rfl
  rw [alloc, if_neg (ofNat_pos positive bounded), Action.get_bind]
  unfold refusal at granted
  split at granted
  · simp at granted
  · rename_i under
    rw [if_neg under, if_neg fits]
    dsimp only
    rw [filled _ (Int64.toNatClampNeg_ofNat_of_lt bounded)]
    simp only [Action.set_bind, Action.pure_apply, adopt, lend, nextBlock, Store.push,
      Array.size_ofFn]

/-- Memory answers a request with an error, stops at it, or lends its next block. -/
theorem alloc_cases (n : Int64) (h : Host α) :
    (∃ cause, (alloc n : Action (Host α) ε _) h = .ok (.error cause) h) ∨
    (alloc n : Action (Host α) ε _) h = .error (.fault .access) h ∨
    ∃ m, 0 < m ∧ m ≤ room ∧ n = Int64.ofNat m ∧
      (alloc n : Action (Host α) ε _) h = .ok (.ok (h.nextBlock m)) (h.lend m) := by
  -- The checks are those of the request, in their order.
  by_cases proper : n ≤ 0
  · exact .inl ⟨.size n, by rw [alloc, if_pos proper]; rfl⟩
  by_cases limited : (h.limit > 0 && h.liveElements + n > h.limit) = true
  · refine .inl ⟨.memoryLimit n h.liveElements h.limit, ?_⟩
    rw [alloc, if_neg proper, Action.get_bind, if_pos limited]
    rfl
  by_cases large : n > largestBlock
  · refine .inr (.inl ?_)
    rw [alloc, if_neg proper, Action.get_bind, if_neg limited, if_pos large]
    rfl
  · -- A size that passes them all is a count of elements that fit in a block.
    have positive : 0 < n := Int64.not_le.mp proper
    obtain ⟨m, rfl, exact⟩ := exists_eq_ofNat (Int64.le_of_lt positive)
    rw [Int64.lt_iff_toInt_lt, Int64.toInt_zero] at positive
    rw [gt_iff_lt, Int64.lt_iff_toInt_lt, show largestBlock.toInt = 2 ^ 45 from rfl] at large
    have small : m ≤ room := by rw [room_eq]; omega
    exact .inr (.inr ⟨m, by omega, small, rfl,
      alloc_granted (by omega) small (by rw [refusal, if_neg limited])⟩)

/-- A block on loan is taken back. -/
theorem free_live {h : Host α} {v : View} {n : Int64} (start : v.start = 0)
    (nonempty : 0 < v.length) (lent : h.live.lookup v.block = some n) :
    (free v : Action (Host α) ε Unit) h =
      .ok () { h with
        live := h.live.filter (fun entry => entry.1 != v.block)
        liveElements := h.liveElements - n } := by
  -- A block with elements that starts at its first one is looked up among the loans.
  have some : (v.length == 0) = false := by simpa using Nat.ne_of_gt nonempty
  simp [free, some, start, lent]

/-- A loan is taken back from among others, which are kept. -/
theorem free_among {h : Host α} {v : View} {n : Int64} {later earlier : List (Nat × Int64)}
    (start : v.start = 0) (nonempty : 0 < v.length)
    (lent : h.live = later ++ (v.block, n) :: earlier)
    (apart : ∀ entry ∈ later ++ earlier, entry.1 ≠ v.block) :
    (free v : Action (Host α) ε Unit) h =
      .ok () { h with live := later ++ earlier, liveElements := h.liveElements - n } := by
  -- No other loan has the number of the block, so only this one is found and taken off.
  have kept : (later ++ earlier).filter (fun entry => entry.1 != v.block) = later ++ earlier :=
    List.filter_eq_self.mpr (fun entry found => by simpa using apart entry found)
  have missed : later.lookup v.block = none := by
    refine List.lookup_eq_none_iff.mpr (fun entry found => ?_)
    simpa using (apart entry (List.mem_append_left _ found)).symm
  have found : h.live.lookup v.block = some n := by simp [lent, List.lookup_append, missed]
  rw [free_live start nonempty found]
  rw [List.filter_append] at kept
  simp [lent, kept]

/-- The latest loan is taken back, and the others are kept. -/
theorem free_latest {h : Host α} {v : View} {n : Int64} {others : List (Nat × Int64)}
    (start : v.start = 0) (nonempty : 0 < v.length) (lent : h.live = (v.block, n) :: others)
    (apart : ∀ entry ∈ others, entry.1 ≠ v.block) :
    (free v : Action (Host α) ε Unit) h =
      .ok () { h with live := others, liveElements := h.liveElements - n } :=
  -- No loan stands in front of it.
  free_among (h := h) start nonempty (lent.trans (List.nil_append _).symm) apart

/-- A block on loan that is given back leaves memory as it was before the loan. -/
theorem free_lent {h : Host α} (ready : h.Ready) {m : Nat} (positive : 0 < m) (s : Store α) :
    (free (h.nextBlock m) : Action (Host α) ε Unit) { h.lend m with store := s } =
      .ok () { h with store := s } := by
  -- No earlier loan has the number of the new block, so only the new one is taken off.
  have others : ∀ entry ∈ h.live, entry.1 ≠ (h.nextBlock m).block :=
    fun entry found => Nat.ne_of_lt (ready.lent entry found)
  rw [free_latest (h := { h.lend m with store := s }) rfl positive rfl others]
  simp only [lend, Int64.add_sub_cancel]

/-- Memory that has lent a block is ready for more. -/
theorem Ready.lend {h : Host α} (ready : h.Ready) (m : Nat) : (h.lend m).Ready :=
  -- How ranges are cut does not depend on what is on loan.
  ⟨Numbered.lend ready.lent m, ready.cut⟩

/-- The store of memory that has lent a block differs by that block only. -/
theorem changes_lend (h : Host α) (m : Nat) (region : Region) :
    Store.Changes region h.store (h.lend m).store :=
  -- A new block leaves the old ones as they are.
  Store.changes_push h.store _ region

/-- A block on loan is there from its first to its last element. -/
theorem reaches_nextBlock (h : Host α) (m : Nat) : (h.lend m).store.Reaches (h.nextBlock m) m where
  long := Nat.le_refl m
  there p below := by
    -- The block is new and filled up to its size.
    rw [Store.read?_eq]
    simp only [lend, nextBlock, Store.cell?_push, if_true, Nat.zero_add]
    simp [below]

section Loans

variable [Elem α] {h : Host α} {m : Nat} {refused : AllocError → ε}
  {body : Temp View → Action (Host α) ε Unit} {s : Store α}

/-- The loan of the next block of `m` elements. -/
def loan (h : Host α) (m : Nat) : Temp View := ⟨h.nextBlock m, Int64.ofNat m, false⟩

/-- Without a block there is nothing to work on. -/
theorem withTemp_refused {cause : AllocError} (positive : 0 < m) (small : m ≤ room)
    (limited : refusal h.limit h.liveElements (Int64.ofNat m) = some cause) :
    backend.withTemp (Int64.ofNat m) refused body h = .error (.error (refused cause)) h := by
  -- The refusal is passed on before the work begins.
  have asked : (backend.acquire (Int64.ofNat m) : Action (Host α) ε _) h = .ok (.error cause) h :=
    Action.bind_ok (alloc_refused positive small limited)
  rw [Backend.withTemp, Action.bind_ok asked]
  rfl

/-- A block that is granted is acquired. -/
theorem acquire_granted (positive : 0 < m) (small : m ≤ room)
    (granted : refusal h.limit h.liveElements (Int64.ofNat m) = none) :
    (backend.acquire (Int64.ofNat m) : Action (Host α) ε _) h = .ok (.ok (h.loan m)) (h.lend m) :=
  -- What was granted is handed on as it is.
  Action.bind_ok (alloc_granted positive small granted)

/-- Work on a borrowed block that ends well leaves memory without the loan. -/
theorem withTemp_ok (ready : h.Ready) (positive : 0 < m) (small : m ≤ room)
    (granted : refusal h.limit h.liveElements (Int64.ofNat m) = none)
    (ran : body (h.loan m) (h.lend m) = .ok () { h.lend m with store := s }) :
    backend.withTemp (Int64.ofNat m) refused body h = .ok () { h with store := s } := by
  -- The block is given back after the work, whatever the work left in the store.
  rw [Backend.withTemp, Action.bind_ok (acquire_granted positive small granted)]
  exact Action.closing_ok ran (free_lent ready positive s)

/-- Work on a borrowed block that fails leaves memory without the loan, too. -/
theorem withTemp_error {cause : ε} (ready : h.Ready) (positive : 0 < m) (small : m ≤ room)
    (granted : refusal h.limit h.liveElements (Int64.ofNat m) = none)
    (ran : body (h.loan m) (h.lend m) = .error (.error cause) { h.lend m with store := s }) :
    backend.withTemp (Int64.ofNat m) refused body h =
      .error (.error cause) { h with store := s } := by
  -- The block is given back after the failure, which is then passed on.
  rw [Backend.withTemp, Action.bind_ok (acquire_granted positive small granted)]
  exact Action.closing_error ran (free_lent ready positive s)

omit [Elem α] in
/-- The rest of a buffer from a position inside it on. -/
theorem offset_ok {v : View} {k : Nat} (inside : k ≤ v.length) (small : k ≤ room) (g : Host α) :
    (offset v (Int64.ofNat k) : Action (Host α) ε View) g = .ok (v.drop k) g := by
  -- The position is a small count, so it is neither negative nor past the end.
  have bounded := lt_of_le_room small
  have covered : ¬ k > v.length := by omega
  simp [offset, ofNat_not_neg bounded, Int64.toNatClampNeg_ofNat_of_lt bounded, covered]

/-- A stretch that lies inside a borrowed block is the rest of the block from its start. -/
theorem slot_ok {n i : Nat} (nonempty : 0 < n) (inside : (i + 1) * n ≤ m) (small : m ≤ room)
    (g : Host α) :
    (backend.slot (h.loan m) (Int64.ofNat i) (Int64.ofNat n) : Action (Host α) ε View) g =
      .ok ((h.nextBlock m).drop (i * n)) g := by
  -- A stretch that ends inside the block starts inside it.
  have start : i * n ≤ m := Nat.le_trans (Nat.mul_le_mul_right n (Nat.le_succ i)) inside
  rw [loan, Backend.slot_inside _ _ nonempty inside (lt_of_le_room small)]
  exact offset_ok start (Nat.le_trans start small) g

/-- Stretches that follow each other inside a borrowed block. -/
theorem slots_ok {n : Nat} (nonempty : 0 < n) (small : m ≤ room) (g : Host α) (count : Nat) :
    ∀ i, (i + count) * n ≤ m →
      (backend.slots (h.loan m) (Int64.ofNat n) (Int64.ofNat i) count :
        Action (Host α) ε (List View)) g =
        .ok ((List.range' i count).map (fun j => (h.nextBlock m).drop (j * n))) g := by
  -- Each stretch ends where the block goes on, so all of them lie inside it.
  induction count with
  | zero => intro i _; rfl
  | succ count ih =>
    intro i inside
    have first : (i + 1) * n ≤ m :=
      Nat.le_trans (Nat.mul_le_mul_right n (by omega)) inside
    have others := ih (i + 1) (by rw [Nat.add_assoc, Nat.add_comm 1 count]; exact inside)
    rw [Int64.ofNat_add, show Int64.ofNat 1 = 1 from rfl] at others
    rw [Backend.slots, Action.bind_ok (slot_ok nonempty first small g), Action.bind_ok others]
    rfl

end Loans

end Host

end Tangent
