import Tangent.Proofs.Vector.Watched

/-!
Three accounts of the blocks on loan.

Memory lists its loans, a backend around it measures them, and another one around that counts them.
Each keeps its books at another point of a call. They agree after every sequence of calls that gives
back only what it holds, in whatever order, and whether calls go through or stop.
-/

namespace Tangent

variable {ε α κ : Type}

namespace Host

/-- The number of elements of blocks. -/
def total (held : List View) : Nat := (held.map View.length).sum

/-- Without blocks there are no elements. -/
@[simp] theorem total_nil : total [] = 0 := rfl

/-- One more block adds its elements. -/
@[simp] theorem total_cons (v : View) (held : List View) :
    total (v :: held) = v.length + total held := by
  -- The sum starts with the first block.
  simp [total]

/-- A block among others has its elements in the sum. -/
theorem total_among (later earlier : List View) (v : View) :
    total (later ++ v :: earlier) = total (later ++ earlier) + v.length := by
  -- Where a block stands in the list makes no difference to the sum.
  simp [total]
  omega

/-- What calls on watched memory come to. -/
def watching [Elem α] (ε : Type) (h : Host α) (calls : List (Call α View)) :
    List (Event ε α View) × Counted (Metered (Host α)) View :=
  watched.follow calls h.watch

/-- Calls on watched memory end as they do on memory alone, and leave the same of it. -/
theorem follow_eq_watching [Elem α] (h : Host α) (calls : List (Call α View)) :
    backend.follow calls h =
      ((h.watching ε calls).1, (h.watching ε calls).2.inner.inner) := by
  -- One backend watches the other, and that one watches memory.
  have outer := (Counted.watches (Metered.backend (ε := ε) backend)).follow calls h.watch
  have inner := (Metered.watches (ε := ε) backend).follow calls h.watch.inner
  rw [outer] at inner
  exact inner

/--
All books agree with the blocks that are held.

So many requests were refused, and there were never more elements on loan than at the peak.
-/
structure Balanced (limit : Int64) (held : List View) (refusals peak : Nat)
    (c : Counted (Metered (Host α)) View) : Prop where
  live : c.inner.inner.live = held.map (fun v => (v.block, Int64.ofNat v.length))
  handles : c.handles = held.map (fun v => (v, Int64.ofNat v.length))
  whole : ∀ v ∈ held, v.start = 0 ∧ 0 < v.length ∧ v.block < c.inner.inner.store.blocks.size
  apart : held.Pairwise (fun v w => v.block ≠ w.block)
  elements : c.inner.inner.liveElements.toInt = total held
  counted : c.liveElements.toInt = total held
  measured : c.inner.meter.liveElements = total held
  calls : c.live = held.length
  loans : (c.inner.meter.allocations : Int) - c.inner.meter.releases = held.length
  refused : c.failed = refusals
  most : c.peakElements.toInt = peak
  below : total held ≤ peak
  cap : c.inner.inner.limit = limit
  capped : 0 < limit → total held ≤ limit.toInt

namespace Balanced

variable {limit : Int64} {held : List View} {refusals peak : Nat}
  {c : Counted (Metered (Host α)) View}

/-- At the start nothing is held. -/
theorem start {h : Host α} (unused : h.live = []) (settled : h.liveElements = 0) :
    Balanced h.limit [] 0 0 h.watch where
  -- All books are empty, and a limit is above zero if there is one.
  live := unused
  handles := rfl
  whole := nofun
  apart := .nil
  elements := by simp [watch, Counted.new, Metered.new, settled]
  counted := rfl
  measured := rfl
  calls := rfl
  loans := rfl
  refused := rfl
  most := rfl
  below := Nat.le_refl 0
  cap := rfl
  capped some := Int.le_of_lt (by simpa [Int64.lt_iff_toInt_lt] using some)

/-- The handles are those of the loans. -/
theorem matched (books : Balanced limit held refusals peak c) : Matched c where
  -- Both lists were made from the blocks that are held.
  live := by rw [books.live, books.handles, List.map_map]; rfl
  whole := by
    rw [books.handles]
    intro entry listed
    obtain ⟨v, owned, rfl⟩ := List.mem_map.mp listed
    exact books.whole v owned
  apart := by
    rw [books.handles]
    exact List.pairwise_map.mpr books.apart

/-- An operation on elements leaves all books as they are. -/
theorem kernel (books : Balanced limit held refusals peak c) {op : Op}
    (other : op ≠ .alloc ∧ op ≠ .free) {t : Store α}
    (size : t.blocks.size = c.inner.inner.store.blocks.size) :
    Balanced limit held refusals peak
      { c with
        inner := ⟨{ c.inner.inner with store := t }, c.inner.meter.kernel op⟩
        calls := c.calls.bump op } :=
  { books with
    -- No block was made, so those that are held are still in memory.
    whole := fun v listed => by
      obtain ⟨start, some, inside⟩ := books.whole v listed
      exact ⟨start, some, size ▸ inside⟩
    calls := by
      have calls := books.calls
      simp only [Counted.live, Tally.count_bump, other.1, other.2, if_false] at calls ⊢
      exact calls }

/-- A block that is lent enters all books. -/
theorem lent (books : Balanced limit held refusals peak c) {m : Nat} (positive : 0 < m)
    (bounded : m + total held < 2 ^ 63)
    (under : 0 < limit → (m + total held : Nat) ≤ limit.toInt) :
    Balanced limit (c.inner.inner.nextBlock m :: held) refusals (max peak (m + total held))
      { inner := ⟨c.inner.inner.lend m, (c.inner.meter.kernel .alloc).alloc (Int64.ofNat m).toInt⟩
        calls := c.calls.bump .alloc
        failed := c.failed
        liveElements := c.liveElements + Int64.ofNat m
        peakElements := max c.peakElements (c.liveElements + Int64.ofNat m)
        handles := (c.inner.inner.nextBlock m, Int64.ofNat m) :: c.handles } := by
  -- All three sums are exact, and grow by the same number.
  have size : (Int64.ofNat m).toInt = m := Int64.toInt_ofNat_of_lt (by omega)
  have counted : (c.liveElements + Int64.ofNat m).toInt = (m + total held : Nat) := by
    rw [toInt_add_ofNat books.counted (by omega), Nat.add_comm]
  exact {
    live := by simp [lend, nextBlock, books.live]
    handles := by simp [nextBlock, books.handles]
    whole := fun v listed => by
      dsimp only
      rw [size_lend]
      rcases List.mem_cons.mp listed with rfl | listed
      · exact ⟨rfl, positive, Nat.lt_succ_self _⟩
      · obtain ⟨start, some, inside⟩ := books.whole v listed
        exact ⟨start, some, Nat.lt_succ_of_lt inside⟩
    -- Blocks are numbered in turn, so no block that is held has the number of the new one.
    apart := List.pairwise_cons.mpr
      ⟨fun v listed => Nat.ne_of_gt (books.whole v listed).2.2, books.apart⟩
    elements := by
      show (c.inner.inner.liveElements + Int64.ofNat m).toInt = _
      rw [toInt_add_ofNat books.elements (by omega), total_cons, Nat.add_comm]
      rfl
    counted
    measured := by
      show c.inner.meter.liveElements + _ = _
      rw [books.measured, size, total_cons]
      simp only [nextBlock]
      omega
    calls := by
      have calls := books.calls
      simp only [Counted.live, Tally.count_bump, List.length_cons] at calls ⊢
      simp
      omega
    loans := by
      have loans := books.loans
      simp only [Meter.alloc, Meter.kernel, List.length_cons]
      omega
    refused := books.refused
    most := by
      rw [toInt_max, books.most, counted]
      omega
    below := by
      rw [total_cons]
      exact Nat.le_max_right _ _
    cap := books.cap
    capped := under }

/-- A block that is taken back leaves all books, whichever it is of those that are held. -/
theorem taken (books : Balanced limit held refusals peak c) {later earlier : List View} {v : View}
    (among : held = later ++ v :: earlier) :
    Balanced limit (later ++ earlier) refusals peak
      { c with
        inner := ⟨{ c.inner.inner with
            live := (later ++ earlier).map (fun v => (v.block, Int64.ofNat v.length))
            liveElements := c.inner.inner.liveElements - Int64.ofNat v.length },
          (c.inner.meter.kernel .free).release v.length⟩
        calls := c.calls.bump .free
        handles := (later ++ earlier).map (fun v => (v, Int64.ofNat v.length))
        liveElements := c.liveElements - Int64.ofNat v.length } := by
  subst among
  -- What is left of each sum does not depend on where the block stood.
  have whole := total_among later earlier v
  have elements := books.elements
  have counted := books.counted
  have below := books.below
  rw [whole] at elements counted below
  exact {
    live := rfl
    handles := rfl
    whole := fun w listed => books.whole w (by
      rw [List.mem_append] at listed ⊢
      exact listed.imp_right (List.mem_cons_of_mem v))
    apart := books.apart.sublist ((List.sublist_cons_self v earlier).append_left later)
    elements := toInt_sub_ofNat elements
    counted := toInt_sub_ofNat counted
    measured := by
      show c.inner.meter.liveElements - _ = _
      rw [books.measured, whole]
      omega
    calls := by
      have calls := books.calls
      simp only [Counted.live, Tally.count_bump, List.length_append, List.length_cons] at calls ⊢
      simp
      omega
    loans := by
      have loans := books.loans
      simp only [Meter.release, Meter.kernel, List.length_append, List.length_cons] at loans ⊢
      omega
    refused := books.refused
    most := books.most
    below := by omega
    cap := books.cap
    capped := fun some => by
      have capped := books.capped some
      omega }

/-- What is held is below the peak, also when it is looked at once more. -/
theorem again (books : Balanced limit held refusals peak c) :
    Balanced limit held refusals (max peak (total held)) c := by
  -- The maximum was taken when the blocks became held.
  rwa [Nat.max_eq_left books.below]

/--
The books after a call agree with what is held then.

This asks for nothing but that the elements which are then on loan can be counted.
-/
def Passes (limit : Int64) (held : List View) (refusals peak : Nat) (call : Call α View)
    (out : Except (Halt ε) (Reply View) × Counted (Metered (Host α)) View) : Prop :=
  total (Event.held held ⟨call, out.1⟩) < 2 ^ 63 →
    Balanced limit (Event.held held ⟨call, out.1⟩)
      (refusals + if Event.refused ⟨call, out.1⟩ then 1 else 0)
      (max peak (total (Event.held held ⟨call, out.1⟩))) out.2

/-- An operation on elements goes through or stops, and the books agree. -/
theorem work (books : Balanced limit held refusals peak c) {op : Op}
    (other : op ≠ .alloc ∧ op ≠ .free) {body : Action (Host α) ε Unit}
    (changes : ∃ t, body.left c.inner.inner = { c.inner.inner with store := t } ∧
      t.blocks.size = c.inner.inner.store.blocks.size)
    {call : Call α View} (apart : ∀ v, call ≠ .free v) :
    Passes limit held refusals peak call
      ((do Counted.counted op (Metered.measured op body); return .done :
        Action _ ε (Reply View)).outcome c) := by
  -- Whatever the body did to elements, nothing became held or was given back.
  obtain ⟨t, left, size⟩ := changes
  obtain ⟨same, accepted⟩ := Event.held_of_done held apart (body.outcome c.inner.inner).1
  rw [Call.outcome_done, outcome_work, left]
  intro _
  dsimp only
  rw [same, accepted]
  exact (books.kernel other size).again

variable [Elem α]

/-- A request is refused, stopped or granted, and the books agree in each case. -/
theorem alloc (books : Balanced limit held refusals peak c) (n : Int64) :
    Passes limit held refusals peak (.alloc n)
      (((Call.alloc n).make (watched : Backend _ ε α View)).outcome c) := by
  rcases watched_alloc_cases (ε := ε) n c with
    ⟨cause, asked⟩ | asked | ⟨m, positive, small, rfl, granted, asked⟩
  · -- A refusal is counted and changes nothing else, and a stop changes nothing at all.
    rw [Call.alloc_answered asked]
    intro _
    exact { books.again with refused := congrArg (· + 1) books.refused }
  · rw [Call.alloc_stopped asked]
    intro _
    exact books.again
  · rw [Call.alloc_answered asked]
    intro bounded
    simp only [Event.held, nextBlock, total_cons] at bounded
    refine books.lent positive bounded (fun some => ?_)
    -- A sum above the limit would have been refused.
    have exact := toInt_add_ofNat (b := m) books.elements (by omega)
    by_contra above
    have exceeded : refusal c.inner.inner.limit c.inner.inner.liveElements (Int64.ofNat m) =
        Option.some (.memoryLimit (Int64.ofNat m) c.inner.inner.liveElements
          c.inner.inner.limit) := by
      refine if_pos ?_
      rw [books.cap, Bool.and_eq_true, decide_eq_true_iff, decide_eq_true_iff, gt_iff_lt,
        gt_iff_lt, Int64.lt_iff_toInt_lt (x := limit), exact]
      exact ⟨some, by omega⟩
    rw [granted] at exceeded
    cases exceeded

/-- A block that is held is taken back, and the books agree. -/
theorem free (books : Balanced limit held refusals peak c) {v : View} (owned : v ∈ held) :
    Passes limit held refusals peak (.free v)
      (((Call.free v).make (watched : Backend _ ε α View)).outcome c) := by
  obtain ⟨later, earlier, _, among, rest⟩ := List.exists_erase_eq owned
  obtain ⟨start, nonempty, _⟩ := books.whole v owned
  -- The block has its place among those that are held, and leaves from there.
  have handles : c.handles = later.map (fun v => (v, Int64.ofNat v.length)) ++
      (v, Int64.ofNat v.length) :: earlier.map (fun v => (v, Int64.ofNat v.length)) := by
    rw [books.handles, among, List.map_append, List.map_cons]
  rw [Call.free_answered (books.matched.free_among handles rfl start nonempty), ← List.map_append,
    List.map_map]
  intro _
  show Balanced limit (held.erase v) refusals (max peak (total (held.erase v))) _
  rw [rest]
  exact (books.taken among).again

/-- Whatever call is made, the books agree after it, if only blocks that are held are given back. -/
theorem step (books : Balanced limit held refusals peak c) (call : Call α View)
    (owned : ∀ v, call = .free v → v ∈ held) :
    Passes limit held refusals peak call
      ((call.make (watched : Backend _ ε α View)).outcome c) := by
  -- Only two kinds of calls change what is held.
  cases call with
  | alloc n => exact books.alloc n
  | free v => exact books.free (owned v rfl)
  | offset v off =>
    unfold Call.make
    rw [Action.outcome_bind, outcome_offset]
    intro _
    cases ((Host.offset v off : Action _ ε View).outcome c.inner.inner).1 <;> exact books.again
  | one op dst n =>
    have changes := left_one (ε := ε) op dst n c.inner.inner
    cases op <;> exact books.work (by decide) changes nofun
  | two op src dst n =>
    have changes := left_two (ε := ε) op src dst n c.inner.inner
    cases op <;> exact books.work (by decide) changes nofun

end Balanced

variable [Elem α] {h : Host α} {calls : List (Call α View)}

/-- The blocks that are held after calls. -/
def heldAfter (ε : Type) (h : Host α) (calls : List (Call α View)) : List View :=
  Event.heldAfter (h.watching ε calls).1

/--
Calls that give back only what they hold, and never hold too much to be measured exactly.

Their kernels cut ranges properly, so every call comes back.
-/
structure Orderly (ε : Type) (h : Host α) (calls : List (Call α View)) : Prop where
  cut : h.chunking.Proper room
  owned : ∀ before v, before ++ [.free v] <+: calls → v ∈ h.heldAfter ε before
  exact : ∀ before, before <+: calls → total (h.heldAfter ε before) < 2 ^ 53

/-- Whether calls are orderly is told by what is held before each of them. -/
theorem orderly_iff :
    Orderly ε h calls ↔ h.chunking.Proper room ∧ ∀ pc ∈ List.range (calls.length + 1),
      (∀ v ∈ calls[pc]?.bind Call.freed?, v ∈ h.heldAfter ε (calls.take pc)) ∧
        total (h.heldAfter ε (calls.take pc)) < 2 ^ 53 := by
  constructor
  · intro orderly
    refine ⟨orderly.cut, fun pc _ => ?_⟩
    refine ⟨fun v freed => ?_, orderly.exact _ (List.take_prefix pc calls)⟩
    -- The call that comes next may only give back what is held before it.
    obtain ⟨call, here, frees⟩ := Option.bind_eq_some_iff.mp freed
    obtain rfl : call = .free v := by
      cases call <;> simp_all [Call.freed?]
    refine orderly.owned _ v ?_
    have more : calls.take pc ++ [.free v] = calls.take (pc + 1) := by
      rw [List.take_add_one, here, Option.toList_some]
    exact more ▸ List.take_prefix (pc + 1) calls
  · intro ⟨cut, each⟩
    refine ⟨cut, ?_, ?_⟩
    · rintro before v ⟨after, rfl⟩
      -- The block is given back right after the calls before it.
      have here := (each before.length (by simp)).1 v (by simp [Call.freed?])
      simpa using here
    · rintro before ⟨after, rfl⟩
      have here := (each before.length (by simp)).2
      simpa using here

instance : Decidable (Orderly ε h calls) := decidable_of_iff _ orderly_iff.symm

/-- The first of orderly calls are orderly. -/
theorem Orderly.earlier {first : List (Call α View)} (orderly : Orderly ε h calls)
    (among : first <+: calls) : Orderly ε h first where
  -- A start of the first calls is a start of all of them.
  cut := orderly.cut
  owned before v listed := orderly.owned before v (listed.trans among)
  exact before listed := orderly.exact before (listed.trans among)

/-- The most of what was reached with one more call is what was reached before, or just now. -/
theorem isGreatest_concat {f : List κ → Nat} {xs : List κ} {x : κ} {most : Nat}
    (greatest : IsGreatest { n | ∃ before, before <+: xs ∧ f before = n } most) :
    IsGreatest { n | ∃ before, before <+: xs ++ [x] ∧ f before = n }
      (max most (f (xs ++ [x]))) := by
  -- Only the whole list is new among those that it begins with.
  have more : { n | ∃ before, before <+: xs ++ [x] ∧ f before = n } =
      insert (f (xs ++ [x])) { n | ∃ before, before <+: xs ∧ f before = n } := by
    ext n
    simp only [List.prefix_concat_iff, Set.mem_ofPred_eq, Set.mem_insert_iff]
    grind
  rw [more, max_comm]
  exact greatest.insert _

/-- After orderly calls the books agree with what is held, and the peak is the most there was. -/
theorem Orderly.exists_balanced (unused : h.live = []) (settled : h.liveElements = 0)
    (orderly : Orderly ε h calls) :
    ∃ peak, Balanced h.limit (h.heldAfter ε calls)
        ((h.watching ε calls).1.countP Event.refused) peak (h.watching ε calls).2 ∧
      IsGreatest { n | ∃ before, before <+: calls ∧ total (h.heldAfter ε before) = n } peak := by
  -- The books are followed call by call.
  induction calls using List.reverseRecOn with
  | nil =>
    refine ⟨0, .start unused settled, ⟨[], List.prefix_rfl, rfl⟩, ?_⟩
    rintro n ⟨before, listed, rfl⟩
    rw [List.prefix_nil.mp listed]
    exact Nat.le_refl 0
  | append_singleton calls call ih =>
    obtain ⟨peak, books, greatest⟩ := ih (orderly.earlier (List.prefix_append _ _))
    have owned : ∀ v, call = .free v → v ∈ h.heldAfter ε calls := by
      rintro v rfl
      exact orderly.owned calls v List.prefix_rfl
    have bounded := orderly.exact (calls ++ [call]) List.prefix_rfl
    have passes := books.step (ε := ε) call owned
    have greatest := isGreatest_concat (x := call) greatest
    -- One more call adds one event, and leaves the state that it was made to leave.
    simp only [heldAfter, watching, Backend.follow_concat, Event.heldAfter_concat] at *
    refine ⟨_, ?_, greatest⟩
    rw [List.countP_append, List.countP_singleton]
    exact passes (by omega)

/--
The three accounts of the blocks on loan agree after every sequence of orderly calls.

Memory starts with nothing on loan, and with any limit. The replies and the memory that is left are
those of the same calls on memory alone.
-/
theorem accounts_agree (unused : h.live = []) (settled : h.liveElements = 0)
    (orderly : Orderly ε h calls) :
    ∃ (events : List (Event ε α View)) (c : Counted (Metered (Host α)) View),
      watched.follow calls h.watch = (events, c) ∧
      backend.follow calls h = (events, c.inner.inner) ∧
      c.live = c.inner.inner.live.length ∧
      c.inner.inner.live.length = (Event.heldAfter events).length ∧
      c.inner.meter.liveElements = c.inner.inner.liveElements.toInt ∧
      c.inner.inner.liveElements.toInt = total (Event.heldAfter events) ∧
      (c.inner.meter.allocations : Int) - c.inner.meter.releases = c.inner.inner.live.length ∧
      IsGreatest { n | ∃ before, before <+: calls ∧
          (watched.follow before h.watch : List (Event ε α View) × _).2.inner.inner.liveElements.toInt
            = n } c.peakElements.toInt ∧
      c.failed = events.countP Event.refused ∧
      (0 < h.limit → c.inner.inner.liveElements ≤ h.limit) := by
  obtain ⟨peak, books, reached, most⟩ := orderly.exists_balanced unused settled
  have loans : (h.watching ε calls).2.inner.inner.live.length = (h.heldAfter ε calls).length := by
    rw [books.live, List.length_map]
  -- Memory lists a loan for each block that is held.
  refine ⟨(h.watching ε calls).1, (h.watching ε calls).2, rfl, follow_eq_watching h calls,
    by rw [books.calls, loans], loans, by rw [books.measured, books.elements], books.elements,
    by rw [books.loans, loans], ?_, books.refused, fun some => ?_⟩
  · -- At every moment before, memory had counted what was held then.
    have elements {before : List (Call α View)} (listed : before <+: calls) :
        (h.watching ε before).2.inner.inner.liveElements.toInt = total (h.heldAfter ε before) := by
      obtain ⟨_, earlier, _⟩ := (orderly.earlier listed).exists_balanced unused settled
      exact earlier.elements
    rw [books.most]
    obtain ⟨before, listed, same⟩ := reached
    refine ⟨⟨before, listed, (elements listed).trans (congrArg Nat.cast same)⟩, ?_⟩
    rintro n ⟨before, listed, rfl⟩
    exact (elements listed).trans_le (Int.ofNat_le.mpr (most ⟨before, listed, rfl⟩))
  · rw [Int64.le_iff_toInt_le, books.elements]
    exact books.capped some

/-- Requests that are granted, refused and stopped at, with blocks given back out of order. -/
def mixedCalls : List (Call Float View) :=
  [.alloc 3, .alloc 4, .alloc 2, .alloc 0, .alloc 9223372036854775807,
    .two .add ⟨0, 0, 3⟩ ⟨1, 0, 4⟩ 4, .free ⟨0, 0, 3⟩, .offset ⟨1, 0, 4⟩ 1,
    .one .zero ⟨1, 1, 3⟩ 3, .alloc 2, .free ⟨1, 0, 4⟩]

/-- Such calls are orderly under a limit of eight elements, so all accounts of them agree. -/
theorem accounts_agree_mixed :
    Orderly Empty (Host.new 8 .sequential) mixedCalls ∧
    ∃ (events : List (Event Empty Float View)) (c : Counted (Metered (Host Float)) View),
      watched.follow mixedCalls (Host.new 8 .sequential).watch = (events, c) ∧
      events.countP Event.refused = 2 ∧ c.failed = 2 ∧ c.live = 1 ∧
      c.inner.meter.liveElements = 2 ∧ c.peakElements.toInt = 7 := by
  have orderly : Orderly Empty (Host.new 8 .sequential) mixedCalls := by decide +kernel
  refine ⟨orderly, ?_⟩
  obtain ⟨events, c, ran, _, live, loans, measured, elements, _, _, failed, _⟩ :=
    accounts_agree rfl rfl orderly
  -- The run itself says which replies there were.
  have replies : (watched.follow mixedCalls (Host.new 8 .sequential).watch).1 = events :=
    congrArg Prod.fst ran
  have left : (watched.follow mixedCalls (Host.new 8 .sequential).watch :
      List (Event Empty Float View) × _).2 = c := congrArg Prod.snd ran
  have refused : events.countP Event.refused = 2 := by
    rw [← replies]
    decide +kernel
  have held : Event.heldAfter events = [⟨2, 0, 2⟩] := by
    rw [← replies]
    decide +kernel
  have peak : c.peakElements = 7 := by
    rw [← left]
    decide +kernel
  refine ⟨events, c, ran, refused, failed.trans refused, ?_, ?_, by rw [peak]; rfl⟩
  · rw [live, loans, held]
    rfl
  · rw [measured, elements, held]
    rfl

end Host

end Tangent
