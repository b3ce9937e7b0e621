import Tangent.Proofs.Exec.Step
import Tangent.Proofs.Walk.Returns

/-!
What a machine keeps, however it ends.

Nothing that a machine does changes the limit of its memory, and it measures a loan together with
the call that made it.
-/

namespace Tangent

variable {ε α τ : Type}

namespace Host

variable (limit : Int64)

/-- Lending a block does not change the limit. -/
theorem keeps_alloc (n : Int64) :
    Action.Keeps (·.limit = limit) (alloc n : Action (Host α) ε (Except AllocError View)) := by
  intro h same
  -- A request that is granted changes the loans and the numbers, and nothing else.
  rcases alloc_cases (ε := ε) n h with ⟨_, ran⟩ | ran | ⟨_, _, _, _, ran⟩
  · rwa [Action.left_of_ok ran]
  · rwa [Action.left_of_error ran]
  · rw [Action.left_of_ok ran]
    exact same

/-- Taking a block back does not change the limit. -/
theorem keeps_free (v : View) :
    Action.Keeps (·.limit = limit) (free v : Action (Host α) ε Unit) := by
  intro h same
  by_cases empty : (v.length == 0) = true
  · rw [free, if_pos empty]
    exact same
  · rw [free, if_neg empty]
    dsimp only
    rw [Action.left_get_bind]
    -- Whether the loan is found or not, the limit is not written to.
    cases (if v.start == 0 then h.live.lookup v.block else none) <;> exact same

end Host

namespace Machine

/-- A machine on memory with a limit that has measured a call for each loan. -/
structure Books (limit : Int64) (m : Machine α) : Prop where
  limit : m.host.limit = limit
  lent : m.meter.allocations = m.meter.kernelCalls.count .alloc

variable {limit : Int64}

/-- A kernel leaves the measurements as they are. -/
theorem keeps_onHost {kernel : Action (Host α) StepError τ}
    (keeps : Action.Keeps (·.limit = limit) kernel) :
    Action.Keeps (Books limit) (onHost kernel) := by
  -- A kernel is given memory only, so the counters are kept whether it stops or not.
  intro m books
  have after := keeps m.host books.limit
  cases ran : kernel m.host with
  | ok a h =>
    rw [Action.left_of_ok ran] at after
    rw [Action.left_of_ok (onHost_ok ran)]
    exact ⟨after, books.lent⟩
  | error halt h =>
    rw [Action.left_of_error ran] at after
    rw [Action.left_of_error (onHost_error ran)]
    exact ⟨after, books.lent⟩

/-- Calls other than those for blocks have no part in the loans. -/
theorem keeps_kernel {op : Op} (other : op ≠ .alloc) :
    Action.Keeps (Books (α := α) limit) (measure (·.kernel op)) := by
  -- Only requests for blocks are compared with the loans.
  intro m books
  refine ⟨books.limit, ?_⟩
  show m.meter.allocations = (m.meter.kernelCalls.bump op).count .alloc
  rw [Tally.count_bump, if_neg other, Nat.add_zero]
  exact books.lent

/-- Operands are found without a change. -/
theorem keeps_resolve (f : Frame) (r : Ref) (n : Int64) :
    Action.Keeps (Books (α := α) limit) (resolve f r n) := by
  apply Action.Keeps.bind
  · -- Where a buffer is looked for depends on the space, but no table is changed.
    intro m books
    unfold bufferOf
    cases r.space with
    | value => exact books
    | deriv => exact books
    | var => cases (if r.index < 0 then none else f.vars[r.index.toNatClampNeg]?) <;> exact books
    | temp =>
      dsimp only
      rw [Action.left_get_bind]
      cases m.temps.find? r.index <;> exact books
    | other code above => exact books
  · intro buffer m books
    dsimp only
    split
    · exact books
    · split <;> exact books

variable [Elem α]

/-- A temporary begins with a loan that is measured, or not at all. -/
theorem keeps_beginTemp (index len : Int64) :
    Action.Keeps (Books (α := α) limit) (beginTemp Host.kernels index len) := by
  apply (keeps_onHost (Host.keeps_alloc limit len)).bind
  intro answer m books
  cases answer with
  | error cause => exact books
  | ok view =>
    refine ⟨books.limit, ?_⟩
    -- The loan and its call are measured together.
    show m.meter.allocations + 1 = (m.meter.kernelCalls.bump .alloc).count .alloc
    rw [Tally.count_bump, if_pos rfl, books.lent]

/-- A temporary that ends has no part in the loans that were made. -/
theorem keeps_endTemp (index : Int64) :
    Action.Keeps (Books (α := α) limit) (endTemp Host.kernels index) := by
  have measured (n : Int) :
      Action.Keeps (Books (α := α) limit) (measure fun m => (m.kernel .free).release n) := by
    intro m books
    refine ⟨books.limit, ?_⟩
    show m.meter.allocations = (m.meter.kernelCalls.bump .free).count .alloc
    rw [Tally.count_bump, if_neg (by decide), Nat.add_zero]
    exact books.lent
  -- The temporary is out of the table whether its block is taken back or not.
  intro m books
  exact ((keeps_onHost (Host.keeps_free limit _)).bind (fun _ => measured _))
    { m with temps := m.temps.erase index } ⟨books.limit, books.lent⟩

/-- Every instruction keeps the books, whether it goes through or not. -/
theorem keeps_step (f : Frame) (i : Instr α) :
    Action.Keeps (Books limit) (step Host.kernels f i) := by
  -- A kernel that works on elements changes nothing else of its memory.
  have works {kernel : Action (Host α) StepError Unit}
      (elements : ∀ h, ∃ t, kernel.left h = { h with store := t } ∧
        t.blocks.size = h.store.blocks.size) {op : Op} (other : op ≠ .alloc) :
      Action.Keeps (Books limit) (onHost kernel >>= fun _ => measure (·.kernel op)) := by
    refine (keeps_onHost (fun h same => ?_)).bind (fun _ => keeps_kernel other)
    obtain ⟨t, left, _⟩ := elements h
    rw [left]
    exact same
  rw [step_eq]
  cases task : i.task with
  | alloc => exact keeps_beginTemp i.dst.index i.len
  | free => exact keeps_endTemp i.dst.index
  | one op =>
    -- An operation on elements is not a request for a block.
    have other : i.op ≠ .alloc := fun asks => by simp [Instr.task_eq_alloc.mpr asks] at task
    exact (keeps_resolve f i.dst i.len).bind (fun dst => works (Host.left_one op dst i.len) other)
  | two op =>
    have other : i.op ≠ .alloc := fun asks => by simp [Instr.task_eq_alloc.mpr asks] at task
    exact (keeps_resolve f i.dst i.len).bind (fun dst => (keeps_resolve f i.src i.len).bind
      (fun src => works (Host.left_two op src dst i.len) other))
  | unknown name => exact (keeps_resolve f i.dst i.len).bind (fun _ _ books => books)

/-- Giving temporaries back keeps the books. -/
theorem keeps_releaseEach (entries : List (Int64 × View)) :
    Action.Keeps (Books (α := α) limit) (releaseEach Host.kernels entries) := by
  -- Temporaries are given back one after the other.
  induction entries with
  | nil => exact fun _ books => books
  | cons entry rest ih =>
    apply (keeps_onHost (Host.keeps_free limit entry.2)).bind
    intro _ m books
    exact ih { m with
      meter := m.meter.release entry.2.length
      temps := m.temps.erase entry.1 } ⟨books.limit, books.lent⟩

variable [Written α]

/-- Performing instructions keeps the books. -/
theorem keeps_perform (limit : Int64) (f : Frame) (is : List (Instr α)) (pc : Nat) :
    Action.Keeps (Books limit) (perform Host.kernels f pc is) := by
  induction is generalizing pc with
  | nil => exact fun _ books => books
  | cons i rest ih =>
    -- Looking for a cancellation uses up patience only.
    refine Action.Keeps.bind (fun m books => ?_)
      (fun _ => ((keeps_step f i).adapt _).bind (fun _ => ih (pc + 1)))
    unfold poll
    rw [Action.left_get_bind]
    cases m.patience with
    | none => exact books
    | some left => cases left <;> exact ⟨books.limit, books.lent⟩

/-- A run keeps the books to its end. -/
theorem keeps_runIn (limit : Int64) (p : Program α) (f : Frame) :
    Action.Keeps (Books limit) (runIn Host.kernels p f) := by
  have released : Action.Keeps (Books (α := α) limit) (releaseAll Host.kernels) :=
    fun m books => keeps_releaseEach m.temps m books
  refine Action.Keeps.closing (fun m books => ?_) (released.adapt _)
  have after := keeps_perform limit f p.instrs 0 m books
  -- That the run ended is measured in a series of its own.
  unfold Action.left Action.outcome counted
  cases ran : perform Host.kernels f 0 p.instrs m with
  | ok _ t =>
    rw [Action.left_of_ok ran] at after
    exact ⟨after.limit, after.lent⟩
  | error halt t =>
    rw [Action.left_of_error ran] at after
    cases halt <;> exact ⟨after.limit, after.lent⟩

end Machine

end Tangent
