import Tangent.Proofs.Vector.Calls
import Tangent.Proofs.Vector.Counted
import Tangent.Proofs.Walk.Returns

/-!
Memory with two layers around it.

One layer measures memory, and another one counts the calls to that. Each call is described by what
it does to all three. The handles that are counted are the loans of memory, one by one, so a buffer
that memory does not take back is not found among them either.
-/

namespace Tangent

variable {σ ε α : Type}

namespace Metered

variable {be : Backend σ ε α View} {m : Metered σ} {n : Int64} {v : View} {s : σ}

/-- A block that was lent is measured. -/
theorem alloc_lent (lent : be.alloc n m.inner = .ok (.ok v) s) :
    (backend be).alloc n m = .ok (.ok v) ⟨s, (m.meter.kernel .alloc).alloc n.toInt⟩ :=
  -- The measurement is made after the answer.
  Action.bind_ok (Action.focus_ok lent)

/-- A block that was taken back is measured. -/
theorem free_held (taken : be.free v m.inner = .ok () s) :
    (backend be).free v m = .ok () ⟨s, (m.meter.kernel .free).release v.length⟩ :=
  -- The measurement is made before the backend is asked.
  (Action.modify_bind _ _ m).trans (Action.focus_ok taken)

end Metered

/-- Views that see something name the same storage if they start at the same element. -/
theorem View.same_eq {v w : View} (some : 0 < v.length) (some' : 0 < w.length) :
    Handle.same v w = (v.block == w.block && v.start == w.start) := by
  -- Views that see nothing are told apart by their length only.
  simp [Handle.same, Nat.ne_of_gt some, Nat.ne_of_gt some']

namespace Host

/-- Memory of which nothing is counted or measured yet. -/
def watch (h : Host α) : Counted (Metered (Host α)) View := Counted.new (Metered.new h)

/-- Memory that is measured, with a count around that. -/
def watched [Elem α] : Backend (Counted (Metered (Host α)) View) ε α View :=
  Counted.backend (Metered.backend backend)

/-- An operation on elements is counted and measured, and memory is left as it leaves it. -/
theorem outcome_work (op : Op) (body : Action (Host α) ε Unit)
    (c : Counted (Metered (Host α)) View) :
    (Counted.counted op (Metered.measured op body)).outcome c =
      ((body.outcome c.inner.inner).1,
        { c with
          inner := ⟨body.left c.inner.inner, c.inner.meter.kernel op⟩
          calls := c.calls.bump op }) := by
  -- Both records are made before the body runs, so they are made even if it stops.
  simp only [Action.left, Action.outcome, Counted.counted, Metered.measured, Metered.record,
    Counted.within, Metered.within, Action.modify_bind, Action.focus]
  cases body c.inner.inner <;> rfl

/-- A stretch is looked for, or is a misuse, and nothing is written down. -/
theorem outcome_offset [Elem α] (v : View) (off : Int64) (c : Counted (Metered (Host α)) View) :
    (watched.offset v off : Action _ ε View).outcome c =
      (((offset v off : Action _ ε View).outcome c.inner.inner).1, c) := by
  -- Neither layer writes anything down for a stretch.
  show (Counted.within (Metered.within (offset v off)) : Action _ ε View).outcome c = _
  unfold offset
  split <;> rfl

/-- A request for watched memory is refused, stopped at or granted, as memory has it. -/
theorem watched_alloc_cases [Elem α] (n : Int64) (c : Counted (Metered (Host α)) View) :
    (∃ cause, (watched.alloc n : Action _ ε _) c =
      .ok (.error cause) { c with failed := c.failed + 1 }) ∨
    (watched.alloc n : Action _ ε _) c = .error (.fault .access) c ∨
    ∃ m, 0 < m ∧ m ≤ room ∧ n = Int64.ofNat m ∧
      refusal c.inner.inner.limit c.inner.inner.liveElements n = none ∧
      (watched.alloc n : Action _ ε _) c =
        .ok (.ok (c.inner.inner.nextBlock m))
          { inner := ⟨c.inner.inner.lend m, (c.inner.meter.kernel .alloc).alloc n.toInt⟩
            calls := c.calls.bump .alloc
            failed := c.failed
            liveElements := c.liveElements + n
            peakElements := max c.peakElements (c.liveElements + n)
            handles := (c.inner.inner.nextBlock m, n) :: c.handles } := by
  rcases alloc_cases (ε := ε) n c.inner.inner with
    ⟨cause, asked⟩ | asked | ⟨m, positive, small, rfl, asked⟩
  · have measured : (Metered.backend (ε := ε) backend).alloc n c.inner =
        .ok (.error cause) c.inner := Action.bind_ok (Action.focus_ok asked)
    exact .inl ⟨cause, Counted.alloc_refused measured⟩
  · -- A request that is stopped at leaves no trace.
    have measured : (Metered.backend (ε := ε) backend).alloc n c.inner =
        .error (.fault .access) c.inner := Action.bind_error (Action.focus_error asked)
    exact .inr (.inl (Action.bind_error (Action.focus_error measured)))
  · have measured : (Metered.backend (ε := ε) backend).alloc _ c.inner = _ :=
      Metered.alloc_lent asked
    refine .inr (.inr ⟨m, positive, small, rfl, ?_, Counted.alloc_ok measured⟩)
    -- A block that is refused is not lent.
    cases refused : refusal c.inner.inner.limit c.inner.inner.liveElements (Int64.ofNat m) with
    | none => rfl
    | some cause =>
      rw [alloc_refused positive small refused] at asked
      cases asked

/-- A buffer is the start of a block on loan, or it is refused with a message. -/
theorem free_cases (v : View) (h : Host α) :
    (∃ n, v.start = 0 ∧ 0 < v.length ∧ h.live.lookup v.block = some n) ∨
    (v.length = 0 ∨ v.start ≠ 0 ∨ h.live.lookup v.block = none) ∧
      ∃ text, (free v : Action (Host α) ε Unit) h = .error (.fault (.panic text)) h := by
  by_cases empty : v.length = 0
  · exact .inr ⟨.inl empty, s!"free: {doubleFreeText}: empty buffer", by simp [free, empty]⟩
  by_cases start : v.start = 0
  · cases lent : h.live.lookup v.block with
    | none =>
      exact .inr ⟨.inr (.inr rfl), s!"free: {doubleFreeText}", by simp [free, empty, start, lent]⟩
    | some n => exact .inl ⟨n, start, Nat.pos_of_ne_zero empty, rfl⟩
  · -- A buffer that starts further in is not looked up.
    exact .inr ⟨.inr (.inl start), s!"free: {doubleFreeText}", by simp [free, empty, start]⟩

/-- The handles that are counted are the loans of memory, one by one. -/
structure Matched (c : Counted (Metered (Host α)) View) : Prop where
  live : c.inner.inner.live = c.handles.map (fun entry => (entry.1.block, entry.2))
  whole : ∀ entry ∈ c.handles,
    entry.1.start = 0 ∧ 0 < entry.1.length ∧ entry.1.block < c.inner.inner.store.blocks.size
  apart : c.handles.Pairwise (fun first second => first.1.block ≠ second.1.block)

namespace Matched

variable {c : Counted (Metered (Host α)) View} {v held : View}

/-- A handle names the storage of a buffer if the buffer is the start of the same block. -/
theorem same_iff (matched : Matched c) {entry : View × Int64} (listed : entry ∈ c.handles) :
    Handle.same entry.1 v = true ↔ 0 < v.length ∧ v.start = 0 ∧ entry.1.block = v.block := by
  -- A handle is a whole block, so it starts at zero and sees something.
  obtain ⟨start, some, _⟩ := matched.whole entry listed
  rcases Nat.eq_zero_or_pos v.length with empty | some'
  · simp [Handle.same, empty, Nat.ne_of_gt some]
  · rw [View.same_eq some some', start, Bool.and_eq_true, beq_iff_eq, beq_iff_eq,
      and_comm (a := entry.1.block = v.block), eq_comm (a := 0)]
    exact (and_iff_right some').symm

variable [Elem α]

/-- A block is taken back from among others, whose handles and loans are kept. -/
theorem free_among (matched : Matched c) {n : Int64} {later earlier : List (View × Int64)}
    (among : c.handles = later ++ (held, n) :: earlier) (block : held.block = v.block)
    (start : v.start = 0) (nonempty : 0 < v.length) :
    (watched.free v : Action _ ε Unit) c = .ok ()
      { c with
        inner := ⟨{ c.inner.inner with
            live := (later ++ earlier).map (fun entry => (entry.1.block, entry.2))
            liveElements := c.inner.inner.liveElements - n },
          (c.inner.meter.kernel .free).release v.length⟩
        calls := c.calls.bump .free
        handles := later ++ earlier
        liveElements := c.liveElements - n } := by
  have positions := matched.apart
  rw [among, List.pairwise_append, List.pairwise_cons] at positions
  obtain ⟨_, ⟨behind, _⟩, before⟩ := positions
  -- Every other handle is that of another block.
  have others : ∀ entry ∈ later ++ earlier, entry.1.block ≠ v.block := by
    intro entry listed
    rw [← block]
    rcases List.mem_append.mp listed with first | last
    · exact before entry first (held, n) List.mem_cons_self
    · exact (behind entry last).symm
  -- Memory finds the block by its number, and the count finds it by its first element.
  have taken : (free v : Action (Host α) ε Unit) c.inner.inner = .ok ()
      { c.inner.inner with
        live := (later ++ earlier).map (fun entry => (entry.1.block, entry.2))
        liveElements := c.inner.inner.liveElements - n } := by
    rw [List.map_append]
    refine Host.free_among start nonempty ?_ ?_
    · rw [matched.live, among, List.map_append, List.map_cons, block]
    · intro entry listed
      rw [← List.map_append] at listed
      obtain ⟨other, listed', rfl⟩ := List.mem_map.mp listed
      exact others other listed'
  have found : Counted.takeHandle? v c.handles = some (n, later ++ earlier) := by
    rw [among]
    refine Counted.takeHandle?_among ?_ (fun entry listed => ?_)
    · have listed : (held, n) ∈ c.handles := by simp [among]
      exact (matched.same_iff listed).mpr ⟨nonempty, start, block⟩
    · rw [Bool.eq_false_iff, ne_eq, matched.same_iff (by simp [among, listed])]
      exact fun same => others entry (List.mem_append_left earlier listed) same.2.2
  exact Counted.free_held found (Metered.free_held taken)

/-- A buffer that memory refuses leaves loans and handles alone, and is counted and measured. -/
theorem free_refused (matched : Matched c)
    (why : v.length = 0 ∨ v.start ≠ 0 ∨ c.inner.inner.live.lookup v.block = none)
    {halt : Halt ε} (refused : free v c.inner.inner = .error halt c.inner.inner) :
    (watched.free v : Action _ ε Unit) c = .error halt
      { c with
        inner := ⟨c.inner.inner, (c.inner.meter.kernel .free).release v.length⟩
        calls := c.calls.bump .free } := by
  have unknown : Counted.takeHandle? v c.handles = none := by
    refine Counted.takeHandle?_eq_none (fun entry listed => ?_)
    rw [Bool.eq_false_iff, ne_eq, matched.same_iff listed]
    rintro ⟨some, start, same⟩
    obtain unlent : c.inner.inner.live.lookup v.block = none :=
      (why.resolve_left (Nat.ne_of_gt some)).resolve_left (not_not_intro start)
    -- The loan of the handle would have been found by memory.
    rw [matched.live, List.lookup_eq_none_iff] at unlent
    simpa [same] using unlent _ (List.mem_map_of_mem listed)
  -- Both layers have changed their books when memory is asked.
  have measured : (Metered.backend (ε := ε) backend).free v c.inner =
      .error halt ⟨c.inner.inner, (c.inner.meter.kernel .free).release v.length⟩ :=
    (Action.modify_bind _ _ c.inner).trans (Action.focus_error refused)
  refine (Action.modify_bind _ _ c).trans ?_
  simp only [unknown]
  exact Action.focus_error measured

end Matched

end Host

end Tangent
