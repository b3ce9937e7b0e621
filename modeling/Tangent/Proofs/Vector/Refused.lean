import Tangent.Proofs.Vector.Watched

/-!
Buffers that memory does not take back.

Calls of any kind may have been made before, in any order and whether they went through or not. The
handles are the loans of memory after each of them, so a buffer that memory refuses has no handle to
be taken out: memory, the handles and the peak stay as they were, although the call is counted.
-/

namespace Tangent

variable {ε α : Type}

namespace Host

/--
Watched memory after any calls.

Between calls the numbers in memory may be changed, and more of them may be put there.
-/
inductive Reached [Elem α] (ε : Type) : Counted (Metered (Host α)) View → Prop where
  | start {h : Host α} (unused : h.live = []) (settled : h.liveElements = 0) : Reached ε h.watch
  | called {c : Counted (Metered (Host α)) View} (before : Reached ε c) (call : Call α View) :
    Reached ε ((call.make (watched : Backend _ ε α View)).outcome c).2
  | changed {c : Counted (Metered (Host α)) View} (before : Reached ε c) (s : Store α)
    (grown : c.inner.inner.store.blocks.size ≤ s.blocks.size) :
    Reached ε { c with inner := ⟨{ c.inner.inner with store := s }, c.inner.meter⟩ }

namespace Matched

variable {c : Counted (Metered (Host α)) View}

/-- At the start there are neither handles nor loans. -/
theorem start {h : Host α} (unused : h.live = []) : Matched h.watch where
  -- Both lists are empty.
  live := unused
  whole := by simp [watch, Counted.new]
  apart := .nil

/-- Numbers, measurements and counts of calls have no part in it, as long as no block goes. -/
theorem changed (matched : Matched c) {s : Store α} (meter : Meter) (calls : Tally)
    (grown : c.inner.inner.store.blocks.size ≤ s.blocks.size) :
    Matched { c with inner := ⟨{ c.inner.inner with store := s }, meter⟩, calls } where
  -- Only the size of memory matters to handles, and it does not shrink.
  live := matched.live
  whole entry listed := by
    obtain ⟨start, some, inside⟩ := matched.whole entry listed
    exact ⟨start, some, Nat.lt_of_lt_of_le inside grown⟩
  apart := matched.apart

/-- A block that is lent has a handle of its own. -/
theorem lent (matched : Matched c) {m : Nat} (positive : 0 < m) (n peak : Int64) (meter : Meter)
    (calls : Tally) :
    Matched
      { inner := ⟨c.inner.inner.lend m, meter⟩
        calls
        failed := c.failed
        liveElements := c.liveElements + n
        peakElements := peak
        handles := (c.inner.inner.nextBlock m, Int64.ofNat m) :: c.handles } where
  live := by simp [lend, nextBlock, matched.live]
  whole entry listed := by
    dsimp only
    rw [size_lend]
    rcases List.mem_cons.mp listed with rfl | listed
    · exact ⟨rfl, positive, Nat.lt_succ_self _⟩
    · obtain ⟨start, some, inside⟩ := matched.whole entry listed
      exact ⟨start, some, Nat.lt_succ_of_lt inside⟩
  -- Blocks are numbered in turn, so no handle has the number of the new one.
  apart := List.pairwise_cons.mpr
    ⟨fun entry listed => Nat.ne_of_gt (matched.whole entry listed).2.2, matched.apart⟩

variable [Elem α]

/-- A block that is given back leaves with its handle, or is refused and has none. -/
theorem free (matched : Matched c) (v : View) :
    Matched ((watched.free v : Action _ ε Unit).outcome c).2 := by
  rcases free_cases (ε := ε) v c.inner.inner with ⟨n, start, some, lent⟩ | ⟨why, text, refused⟩
  · -- The loan that memory finds is that of a handle.
    obtain ⟨front, back, split, _⟩ := List.lookup_eq_some_iff.mp lent
    rw [matched.live] at split
    obtain ⟨later, rest, among, rfl, tail⟩ := List.map_eq_append_iff.mp split
    obtain ⟨⟨held, m⟩, earlier, rfl, own, rfl⟩ := List.map_eq_cons_iff.mp tail
    have ran := matched.free_among (ε := ε) among (Prod.mk.inj own).1 start some
    rw [Action.outcome, ran]
    have kept : (later ++ earlier).Sublist c.handles :=
      among ▸ (List.sublist_cons_self (held, m) earlier).append_left later
    exact {
      live := rfl
      whole := fun entry listed => matched.whole entry (kept.subset listed)
      apart := matched.apart.sublist kept }
  · -- A refusal leaves the handles, and is only counted and measured.
    rw [Action.outcome, matched.free_refused why refused]
    exact matched.changed _ _ (Nat.le_refl _)

/-- Whatever call is made, the handles are those of the loans after it. -/
theorem step (matched : Matched c) (call : Call α View) :
    Matched ((call.make (watched : Backend _ ε α View)).outcome c).2 := by
  -- An operation on elements leaves the loans and the number of blocks.
  have work {op : Op} {body : Action (Host α) ε Unit}
      (changes : ∃ t, body.left c.inner.inner = { c.inner.inner with store := t } ∧
        t.blocks.size = c.inner.inner.store.blocks.size) :
      Matched ((do Counted.counted op (Metered.measured op body); return .done :
        Action _ ε (Reply View)).outcome c).2 := by
    obtain ⟨t, left, size⟩ := changes
    rw [Call.outcome_done, outcome_work, left]
    exact matched.changed _ _ (Nat.le_of_eq size.symm)
  cases call with
  -- A request is refused, or stops the program, or adds a block and its handle.
  | alloc n =>
    rcases watched_alloc_cases (ε := ε) n c with
      ⟨cause, asked⟩ | asked | ⟨m, positive, _, rfl, _, asked⟩
    · rw [Call.alloc_answered asked]
      exact ⟨matched.live, matched.whole, matched.apart⟩
    · rw [Call.alloc_stopped asked]
      exact matched
    · rw [Call.alloc_answered asked]
      exact matched.lent positive _ _ _ _
  | free v =>
    rw [Call.make, Call.outcome_done]
    exact matched.free v
  | offset v off =>
    -- The layers do not look at an offset.
    rw [Call.make, Action.outcome_bind, outcome_offset]
    cases ((Host.offset v off : Action _ ε View).outcome c.inner.inner).1 <;> exact matched
  | one op dst n =>
    have changes := left_one (ε := ε) op dst n c.inner.inner
    cases op <;> exact work changes
  | two op src dst n =>
    have changes := left_two (ε := ε) op src dst n c.inner.inner
    cases op <;> exact work changes

end Matched

variable [Elem α] {c : Counted (Metered (Host α)) View}

/-- After any calls the handles are the loans of memory. -/
theorem Reached.matched (reached : Reached ε c) : Matched c := by
  -- Every way to reach memory keeps handles and loans in step.
  induction reached with
  | start unused settled => exact .start unused
  | called before call ih => exact ih.step call
  | changed before s grown ih => exact ih.changed _ _ grown

/-- Calls one after the other leave memory that is reached. -/
theorem Reached.follow (reached : Reached ε c) (calls : List (Call α View)) :
    Reached ε ((watched : Backend _ ε α View).follow calls c).2 := by
  -- One call is made after the other.
  induction calls generalizing c with
  | nil => exact reached
  | cons call rest ih => exact ih (reached.called call)

/--
A buffer that memory does not take back leaves the loans and the peak, and its call is counted.

The layers stop with the message of memory. Memory as a whole, the peak, the failed requests and the
handles with their elements, by which later peaks are found, are what they were before. Both layers
count every call of an operation, whether it goes through or not.
-/
theorem refused_free_keeps_loans {v : View} {halt : Halt ε} {g : Host α} (reached : Reached ε c)
    (refused : (free v : Action (Host α) ε Unit) c.inner.inner = .error halt g) :
    ∃ c', (watched.free v : Action _ ε Unit) c = .error halt c' ∧
      (∃ text, halt = .fault (.panic text)) ∧
      c'.inner.inner = c.inner.inner ∧
      c'.peakElements = c.peakElements ∧
      c'.failed = c.failed ∧
      (c'.handles, c'.liveElements) = (c.handles, c.liveElements) ∧
      c'.inner.meter.allocations = c.inner.meter.allocations ∧
      (∀ op, c'.calls.count op = c.calls.count op + if op = .free then 1 else 0) ∧
      ∀ op, c'.inner.meter.kernelCalls.count op =
        c.inner.meter.kernelCalls.count op + if op = .free then 1 else 0 := by
  rcases free_cases (ε := ε) v c.inner.inner with ⟨n, start, some, lent⟩ | ⟨why, text, stopped⟩
  · -- A block on loan would have been taken back.
    rw [free_live start some lent] at refused
    cases refused
  · obtain ⟨rfl, rfl⟩ : halt = .fault (.panic text) ∧ g = c.inner.inner := by
      rw [stopped] at refused
      cases refused
      exact ⟨rfl, rfl⟩
    refine ⟨_, reached.matched.free_refused why stopped, ⟨text, rfl⟩, rfl, rfl, rfl, rfl, rfl,
      fun op => ?_, fun op => ?_⟩
    · simp only [Tally.count_bump, eq_comm]
    · simp only [Meter.release, Meter.kernel, Tally.count_bump, eq_comm]

/-- Memory with a limit after two requests, the first of whose blocks was given back. -/
def returnedFour : Counted (Metered (Host Float)) View :=
  ((watched : Backend _ Empty Float View).follow
    [.alloc 4, .alloc 2, .free ⟨0, 0, 4⟩] (new 8 .sequential).watch).2

/-- That block is not taken back once more, which leaves the other one and the peak. -/
theorem refused_free_keeps_loans_again :
    ∃ (halt : Halt Empty) (c : Counted (Metered (Host Float)) View),
      (free ⟨0, 0, 4⟩ : Action (Host Float) Empty Unit) returnedFour.inner.inner =
        .error halt returnedFour.inner.inner ∧
      (watched.free ⟨0, 0, 4⟩ : Action _ Empty Unit) returnedFour = .error halt c ∧
      c.inner.inner.live = [(1, 2)] ∧ c.inner.inner.liveElements = 2 ∧ c.peakElements = 6 ∧
      c.calls.count .free = 2 ∧ c.inner.meter.kernelCalls.count .free = 2 := by
  -- The block was lent and taken back before.
  have reached : Reached Empty returnedFour := Reached.follow (.start rfl rfl) _
  have refused : (free ⟨0, 0, 4⟩ : Action (Host Float) Empty Unit) returnedFour.inner.inner =
      .error (.fault (.panic s!"free: {doubleFreeText}")) returnedFour.inner.inner := rfl
  obtain ⟨c, stopped, _, memory, peak, _, _, _, calls, kernels⟩ :=
    refused_free_keeps_loans reached refused
  exact ⟨_, c, refused, stopped, by rw [memory]; rfl, by rw [memory]; rfl, by rw [peak]; rfl,
    by rw [calls]; rfl, by rw [kernels]; rfl⟩

/-- Memory in which three numbers belong to its user, after a request for four elements. -/
def lentFour : Counted (Metered (Host Float)) View :=
  ((watched : Backend _ Empty Float View).follow [.alloc 4]
    ((new 0 .sequential).adopt #[1, 2, 3]).2.watch).2

/-- The three numbers are not taken back, and yet they are counted as a block that was. -/
theorem refused_free_counted_as_release :
    Reached Empty lentFour ∧ ∃ (halt : Halt Empty) (c : Counted (Metered (Host Float)) View),
      (free ⟨0, 0, 3⟩ : Action (Host Float) Empty Unit) lentFour.inner.inner =
        .error halt lentFour.inner.inner ∧
      (watched.free ⟨0, 0, 3⟩ : Action _ Empty Unit) lentFour = .error halt c ∧
      (lentFour.calls.count .free = 0 ∧ c.calls.count .free = 1) ∧
      (lentFour.live = 1 ∧ c.live = 0) ∧
      (lentFour.inner.meter.kernelCalls.count .free = 0 ∧
        c.inner.meter.kernelCalls.count .free = 1) ∧
      (lentFour.inner.meter.releases = 0 ∧ c.inner.meter.releases = 1) ∧
      lentFour.inner.meter.liveElements = 4 ∧ c.inner.meter.liveElements = 1 :=
  -- All three calls are made by calculation.
  ⟨Reached.follow (.start rfl rfl) _, _, _, rfl, rfl, ⟨rfl, rfl⟩, ⟨rfl, rfl⟩, ⟨rfl, rfl⟩,
    ⟨rfl, rfl⟩, rfl, rfl⟩

end Host

end Tangent
