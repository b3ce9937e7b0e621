import Tangent.Proofs.Program.Compile
import Tangent.Proofs.Program.Lifetimes
import Tangent.Proofs.Walk.Related
import Tangent.Proofs.Walk.Returns

/-!
A recording under a limit is a first part of the one without.

A recorder with a limit writes down what one without does, until it refuses a block. From there on
it only gives back what is live, while the other one goes on.
-/

namespace Tangent

variable {α : Type}

/-- The live temporaries after one more instruction, and the sum of their elements. -/
def Instr.book (loans : TempTable Int64 × Int64) (i : Instr α) : TempTable Int64 × Int64 :=
  (loans.1.after i,
    match i.op with
    | .alloc => loans.2 + i.len
    | .free => loans.2 - (loans.1.find? i.dst.index).getD 0
    | _ => loans.2)

/-- The live temporaries after instructions, and the sum of their elements. -/
def Instr.booked (is : List (Instr α)) : TempTable Int64 × Int64 := is.foldl Instr.book ([], 0)

/-- What is booked after one more instruction. -/
theorem Instr.booked_concat (is : List (Instr α)) (i : Instr α) :
    booked (is ++ [i]) = book (booked is) i := by
  -- Booking goes through the instructions from the first to the last.
  simp [booked]

/-- The temporaries that are booked are those that are live. -/
theorem Instr.booked_live (is : List (Instr α)) : (booked is).1 = Program.liveAfter is := by
  -- Both go through the instructions in order, and change the table in the same way.
  induction is using List.reverseRecOn with
  | nil => rfl
  | append_singleton is i ih =>
    rw [booked_concat, Program.liveAfter_concat, ← ih]
    rfl

/-- Only beginnings and ends of temporaries are booked. -/
theorem Instr.book_other (loans : TempTable Int64 × Int64) {i : Instr α}
    (other : i.op ≠ .alloc ∧ i.op ≠ .free) : book loans i = loans := by
  -- Both the table and the sum are changed by those two operations only.
  refine Prod.ext (TempTable.after_other _ other) ?_
  unfold book
  dsimp only
  split
  · exact absurd ‹_› other.1
  · exact absurd ‹_› other.2
  · rfl

/-- The sum of live elements is not above a bound whenever a temporary begins. -/
def Instr.Summed (loans : TempTable Int64 × Int64) (most : Int64) (is : List (Instr α)) : Prop :=
  ∀ before i, before ++ [i] <+: is → i.op = .alloc → ((before ++ [i]).foldl book loans).2 ≤ most

namespace Instr.Summed

variable {loans : TempTable Int64 × Int64} {most : Int64} {is : List (Instr α)} {i : Instr α}

/-- The sum is looked at after the first instruction, and then from there on. -/
theorem cons_iff :
    Summed loans most (i :: is) ↔
      (i.op = .alloc → (book loans i).2 ≤ most) ∧ Summed (book loans i) most is := by
  constructor
  · intro summed
    refine ⟨summed [] i (by simp), fun before j listed => ?_⟩
    exact summed (i :: before) j ((List.prefix_cons_inj i).mpr listed)
  · rintro ⟨now, later⟩ before j listed
    -- Either the first instruction is the last one of those, or it comes before them.
    cases before with
    | nil =>
      obtain ⟨rfl, _⟩ := List.cons_prefix_cons.mp listed
      exact now
    | cons k before =>
      obtain ⟨rfl, others⟩ := List.cons_prefix_cons.mp listed
      exact later before j others

/-- The sum stays within its bound with one more instruction that keeps it there. -/
theorem concat (summed : Summed loans most is)
    (last : i.op = .alloc → ((is ++ [i]).foldl book loans).2 ≤ most) :
    Summed loans most (is ++ [i]) := by
  intro before j listed asks
  -- Either the last instruction asks for the block, or an earlier one does.
  rcases List.prefix_concat_iff.mp listed with same | earlier
  · obtain ⟨rfl, one⟩ := List.append_inj' same rfl
    obtain rfl := List.singleton_inj.mp one
    exact last asks
  · exact summed before j earlier asks

/-- What is within a bound is within a larger one. -/
theorem mono {more : Int64} (summed : Summed loans most is) (larger : most ≤ more) :
    Summed loans more is :=
  -- The sum at each beginning is below both bounds.
  fun before i listed asks => Int64.le_trans (summed before i listed asks) larger

end Instr.Summed

namespace Recorder

/-- The same recorder without a limit. -/
def unlimited (r : Recorder α) : Recorder α := { r with limit := 0 }

/-- A recorder that has booked what it recorded. -/
def Kept (r : Recorder α) : Prop := r.loans = Instr.booked r.recorded.reverse

section Kept

variable {r : Recorder α}

/-- An instruction that begins and ends nothing leaves the books as they are. -/
theorem Kept.record (kept : r.Kept) {i : Instr α} (other : i.op ≠ .alloc ∧ i.op ≠ .free) :
    (r.record i).Kept := by
  -- The instruction comes last in order, and nothing is booked for it.
  show r.loans = Instr.booked (i :: r.recorded).reverse
  rw [List.reverse_cons, Instr.booked_concat, Instr.book_other _ other]
  exact kept

variable [Elem α]

/-- The beginning of a temporary is booked. -/
theorem Kept.opened (kept : r.Kept) (n : Int64) : (r.opened n).Kept := by
  -- The beginning comes last in order, and adds the temporary and its size.
  unfold Kept
  rw [show (r.opened n).recorded.reverse = r.recorded.reverse ++ [_] from List.reverse_cons,
    Instr.booked_concat, ← kept]
  rfl

/-- The end of a temporary is booked. -/
theorem Kept.closed (kept : r.Kept) {index size : Int64} (live : r.live.find? index = some size) :
    (r.closed index size).Kept := by
  -- The end comes last in order, and takes off the size under which the temporary was found.
  unfold Kept
  rw [show (r.closed index size).recorded.reverse = r.recorded.reverse ++ [_] from
    List.reverse_cons, Instr.booked_concat, ← kept]
  show (r.live.erase index, r.liveElements - size) =
    (r.live.erase index, r.liveElements - (r.live.find? index).getD 0)
  rw [live]
  rfl

end Kept

/-- A recorder that has written down instructions, and behind them only ends of temporaries. -/
def CutAfter (r : Recorder α) (done : List (Instr α)) : Prop :=
  ∃ frees, r.recorded.reverse = done ++ frees ∧ ∀ i ∈ frees, i.op = .free

/-- A recorder at a block that its limit does not leave room for. -/
structure Refuses (r : Recorder α) (size : Int64) : Prop where
  kept : r.Kept
  proper : ¬ size ≤ 0
  limited : (r.limit > 0 && r.liveElements + size > r.limit) = true

/-- How a refused block is reported, unless a misuse hides it. -/
def Reports (r : Recorder α) (size : Int64) (halt : Halt WalkError) : Prop :=
  halt = .error (.alloc size (.recordLimit size r.liveElements r.limit)) ∨
    ∃ misuse, halt = .fault misuse

variable [Elem α] {κ κ' : Type}

/--
How a computation parts from the same one without a limit.

It stops at a block that is refused. What it has recorded since only ends temporaries, while the
other one has begun the block and gone on.
-/
structure Apart (body : Action (Recorder α) WalkError κ) (r stop : Recorder α) (size : Int64)
    (frees : List (Instr α)) : Prop where
  refuses : stop.Refuses size
  limit : stop.limit = r.limit
  stopped : ∃ halt, (body.outcome r).1 = .error halt ∧ stop.Reports size halt
  recorded : (body.outcome r).2.recorded = frees ++ stop.recorded
  ends : ∀ i ∈ frees, i.op = .free
  goes : (stop.opened size).recorded <:+ (body.outcome r.unlimited).2.recorded

/-- A computation that goes on as another one does parts where that one parts. -/
theorem Apart.of_outcome {body other : Action (Recorder α) WalkError κ} {r t stop : Recorder α}
    {size : Int64} {frees : List (Instr α)} (apart : Apart other t stop size frees)
    (ran : body.outcome r = other.outcome t)
    (ran' : body.outcome r.unlimited = other.outcome t.unlimited) (limit : t.limit = r.limit) :
    Apart body r stop size frees where
  -- All that is said about the other computation is said about its outcome and its limit.
  refuses := apart.refuses
  limit := apart.limit.trans limit
  stopped := by
    rw [ran]
    exact apart.stopped
  recorded := by
    rw [ran]
    exact apart.recorded
  ends := apart.ends
  goes := by
    rw [ran']
    exact apart.goes

/-- A computation that does without a limit what it does with one, as far as it gets with one. -/
structure Parts (body : Action (Recorder α) WalkError κ) : Prop where
  grows : ∀ r, r.recorded <:+ (body.outcome r).2.recorded
  limit : ∀ r, (body.outcome r).2.limit = r.limit
  kept : ∀ r, r.Kept → (body.outcome r).2.Kept
  parts : ∀ r, r.Kept →
    body.outcome r.unlimited = ((body.outcome r).1, (body.outcome r).2.unlimited) ∨
      ∃ stop size frees, Apart body r stop size frees

namespace Parts

variable {body : Action (Recorder α) WalkError κ}

/-- A step that writes down at most one instruction does not see the limit. -/
theorem step (steps : ∀ r, ∃ ended r', (r' = r ∨ ∃ i : Instr α, (i.op ≠ .alloc ∧ i.op ≠ .free) ∧
      r' = r.record i) ∧ body.outcome r = (ended, r') ∧
      body.outcome r.unlimited = (ended, r'.unlimited)) : Parts body where
  grows r := by
    -- The step has recorded nothing, or one instruction on top of what there was.
    obtain ⟨ended, r', rfl | ⟨i, _, rfl⟩, ran, _⟩ := steps r
    · rw [ran]
    · rw [ran]
      exact List.suffix_cons i r.recorded
  limit r := by
    obtain ⟨ended, r', rfl | ⟨i, _, rfl⟩, ran, _⟩ := steps r
    · rw [ran]
    · rw [ran]
      rfl
  kept r kept := by
    obtain ⟨ended, r', rfl | ⟨i, other, rfl⟩, ran, _⟩ := steps r
    · rwa [ran]
    · rw [ran]
      exact kept.record other
  parts r _ := by
    obtain ⟨ended, r', _, ran, ran'⟩ := steps r
    exact .inl (by rw [ran, ran'])

/-- What changes nothing does not see the limit. -/
theorem still (ended : Except (Halt WalkError) κ)
    (ran : ∀ r : Recorder α, body.outcome r = (ended, r)) : Parts body :=
  -- The recorder is the same before and after, with the limit or without it.
  step (fun r => ⟨ended, r, .inl rfl, ran r, ran r.unlimited⟩)

/-- What is recorded first stays. -/
theorem grows_bind {next : κ → Action (Recorder α) WalkError κ'} (goes : ∀ a, Parts (next a))
    (r : Recorder α) :
    (body.outcome r).2.recorded <:+ ((body >>= next).outcome r).2.recorded := by
  -- What follows is run on what the first part recorded, or not at all.
  rw [Action.outcome_bind]
  generalize body.outcome r = ran
  obtain ⟨ended, t⟩ := ran
  cases ended with
  | ok a => exact (goes a).grows t
  | error halt => exact List.suffix_rfl

/-- Computations are followed by others. -/
theorem bind {next : κ → Action (Recorder α) WalkError κ'} (begins : Parts body)
    (goes : ∀ a, Parts (next a)) : Parts (body >>= next) where
  grows r := (begins.grows r).trans (grows_bind goes r)
  limit r := by
    have first := begins.limit r
    rw [Action.outcome_bind]
    generalize body.outcome r = ran at first ⊢
    obtain ⟨ended, t⟩ := ran
    cases ended with
    | ok a => exact ((goes a).limit t).trans first
    | error halt => exact first
  kept r kept := by
    have first := begins.kept r kept
    rw [Action.outcome_bind]
    generalize body.outcome r = ran at first ⊢
    obtain ⟨ended, t⟩ := ran
    cases ended with
    | ok a => exact (goes a).kept t first
    | error halt => exact first
  parts r kept := by
    have kept' := begins.kept r kept
    have limit := begins.limit r
    rcases begins.parts r kept with together | ⟨stop, size, frees, apart⟩
    · -- As far as the first one gets, both go on from recorders that differ in their limits only.
      cases ran : body.outcome r with
      | mk ended t =>
        rw [ran] at together kept' limit
        cases ended with
        | error halt =>
          left
          rw [Action.outcome_bind, Action.outcome_bind, together, ran]
        | ok a =>
          have first : (body >>= next).outcome r = (next a).outcome t := by
            rw [Action.outcome_bind, ran]
          have first' : (body >>= next).outcome r.unlimited = (next a).outcome t.unlimited := by
            rw [Action.outcome_bind, together]
          rcases (goes a).parts t kept' with together | ⟨stop, size, frees, apart⟩
          · exact .inl (by rw [first, first', together])
          · exact .inr ⟨stop, size, frees, apart.of_outcome first first' limit⟩
    · -- What follows is done without a limit only.
      obtain ⟨halt, stopped, reports⟩ := apart.stopped
      have first : (body >>= next).outcome r = (.error halt, (body.outcome r).2) := by
        rw [Action.outcome_bind]
        generalize body.outcome r = ran at stopped ⊢
        obtain ⟨ended, t⟩ := ran
        obtain rfl : ended = .error halt := stopped
        rfl
      refine .inr ⟨stop, size, frees, apart.refuses, apart.limit, ⟨halt, ?_, reports⟩, ?_,
        apart.ends, apart.goes.trans (grows_bind goes r.unlimited)⟩
      · rw [first]
      · rw [first]
        exact apart.recorded

omit [Elem α] in
/-- Whether an operand may be used is a matter of what is live. -/
theorem outcome_use (x : Ref) (r : Recorder α) :
    (Recorder.use x : Action (Recorder α) WalkError Unit).outcome r =
      (if x.space = .temp && (r.live.find? x.index).isNone then
        .error (.fault (.panic s!"program: use of temp {x.text} after free")) else .ok (), r) := by
  -- The table of live temporaries is all that is looked at.
  rw [Action.outcome, Recorder.use, Action.get_bind]
  cases decide (x.space = .temp) && (r.live.find? x.index).isNone <;> rfl

/-- Asking whether an operand may be used does not see the limit. -/
theorem use (x : Ref) : Parts (Recorder.use x : Action (Recorder α) WalkError Unit) :=
  -- The question is answered in the same way without the limit, which it does not look at.
  step (fun r => ⟨_, r, .inl rfl, outcome_use x r, outcome_use x r.unlimited⟩)

/-- Writing down an instruction that begins and ends nothing does not see the limit. -/
theorem emit {i : Instr α} (other : i.op ≠ .alloc ∧ i.op ≠ .free) :
    Parts (Recorder.emit i : Action (Recorder α) WalkError Unit) :=
  -- The same instruction is written down without the limit.
  step (fun r => ⟨.ok (), r.record i, .inr ⟨i, other, rfl⟩, rfl, rfl⟩)

/-- An operation on one operand does not see the limit. -/
theorem one (op : Unary α) (x : Ref) (n : Int64) :
    Parts (backend.one op x n : Action (Recorder α) WalkError Unit) := by
  -- The operand is looked at, and then one instruction is written down.
  cases op <;> exact (use x).bind (fun _ => emit ⟨nofun, nofun⟩)

/-- An operation on two operands does not see the limit. -/
theorem two (op : Binary) (x y : Ref) (n : Int64) :
    Parts (backend.two op x y n : Action (Recorder α) WalkError Unit) := by
  -- Both operands are looked at, and then one instruction is written down.
  cases op <;> exact (use x).bind (fun _ => (use y).bind (fun _ => emit ⟨nofun, nofun⟩))

/-- A temporary that is not live cannot end, in whatever recorder. -/
theorem outcome_free_missing (index : Int64) : ∃ misuse, ∀ r : Recorder α,
    r.live.find? index = none →
      (free ⟨.temp, index, 0⟩ : Action (Recorder α) WalkError Unit).outcome r =
        (.error (.fault misuse), r) := by
  -- The message names the temporary and nothing of the recorder.
  refine ⟨.panic s!"free: {doubleFreeText}: {(⟨.temp, index, 0⟩ : Ref).text}",
    fun r missing => ?_⟩
  simp [Action.outcome, free, missing]

/-- Work that is closed with the end of a temporary parts where the work does. -/
theorem closing {work : Action (Recorder α) WalkError Unit} (works : Parts work) (index : Int64) :
    Parts (work.closing (free ⟨.temp, index, 0⟩)) := by
  obtain ⟨misuse, missing⟩ := outcome_free_missing (α := α) index
  -- Whether the temporary is live decides how the end is seen.
  have cases (r : Recorder α) :
      (∃ size, (work.outcome r).2.live.find? index = some size ∧
        (work.closing (free ⟨.temp, index, 0⟩)).outcome r =
          ((work.outcome r).1, (work.outcome r).2.closed index size)) ∨
      (work.outcome r).2.live.find? index = none ∧
        (work.closing (free ⟨.temp, index, 0⟩)).outcome r =
          (.error (.fault misuse), (work.outcome r).2) := by
    rw [Action.outcome_closing]
    cases live : (work.outcome r).2.live.find? index with
    | some size =>
      have freed : (free ⟨.temp, index, 0⟩ : Action (Recorder α) WalkError Unit).outcome
          (work.outcome r).2 = (.ok (), (work.outcome r).2.closed index size) := by
        rw [Action.outcome, free_live live]
      exact .inl ⟨size, rfl, by rw [freed]⟩
    | none => exact .inr ⟨rfl, by rw [missing _ live]⟩
  have grows (r : Recorder α) : (work.outcome r).2.recorded <:+
      ((work.closing (free ⟨.temp, index, 0⟩)).outcome r).2.recorded := by
    -- An end that is recorded comes on top, and a misuse records nothing.
    rcases cases r with ⟨size, _, ran⟩ | ⟨_, ran⟩
    · rw [ran]
      exact List.suffix_cons _ _
    · rw [ran]
  refine ⟨fun r => (works.grows r).trans (grows r), fun r => ?_, fun r kept => ?_,
    fun r kept => ?_⟩
  · rcases cases r with ⟨size, _, ran⟩ | ⟨_, ran⟩ <;> rw [ran] <;> exact works.limit r
  · rcases cases r with ⟨size, live, ran⟩ | ⟨_, ran⟩
    · rw [ran]
      exact (works.kept r kept).closed live
    · rw [ran]
      exact works.kept r kept
  rcases works.parts r kept with together | ⟨stop, size, frees, apart⟩
  · -- The same is live with and without a limit.
    left
    rcases cases r with ⟨size, live, ran⟩ | ⟨live, ran⟩
    · -- Both find the temporary, with the same size, or neither does.
      rcases cases r.unlimited with ⟨size', live', ran'⟩ | ⟨live', ran'⟩
      · rw [together] at live' ran'
        obtain rfl : size = size' := Option.some.inj (live.symm.trans live')
        rw [ran, ran']
        rfl
      · rw [together] at live'
        exact absurd (live.symm.trans live') (by simp)
    · rcases cases r.unlimited with ⟨size', live', ran'⟩ | ⟨live', ran'⟩
      · rw [together] at live'
        exact absurd (live.symm.trans live') (by simp)
      · rw [together] at ran'
        rw [ran, ran']
  · -- One more temporary ends behind the refused block.
    obtain ⟨halt, stopped, reports⟩ := apart.stopped
    have goes := apart.goes.trans (grows r.unlimited)
    right
    rcases cases r with ⟨size', live, ran⟩ | ⟨live, ran⟩
    · -- The end of the temporary is recorded behind the others.
      refine ⟨stop, size, ⟨.free, ⟨.temp, index, 0⟩, .value, Elem.zero, 0⟩ :: frees,
        apart.refuses, apart.limit, ⟨halt, ?_, reports⟩, ?_, ?_, goes⟩
      · rw [ran]
        exact stopped
      · rw [ran]
        show _ :: (work.outcome r).2.recorded = _
        rw [apart.recorded]
        rfl
      · simpa using apart.ends
    · -- The misuse hides how the refused block was reported.
      refine ⟨stop, size, frees, apart.refuses, apart.limit, ⟨.fault misuse, ?_, .inr ⟨_, rfl⟩⟩,
        ?_, apart.ends, goes⟩
      · rw [ran]
      · rw [ran]
        exact apart.recorded

/-- Work on a block parts where the block is refused, or where the work does. -/
theorem withTemp (n : Int64) {body : Temp Ref → Action (Recorder α) WalkError Unit}
    (works : ∀ temp, Parts (body temp)) : Parts (backend.withTemp n (.alloc n) body) := by
  have worked (r : Recorder α) := (works ⟨⟨.temp, r.nextTemp, 0⟩, n, false⟩).closing r.nextTemp
  have refused {r : Recorder α} {cause : AllocError}
      (asked : (alloc n : Action (Recorder α) WalkError _) r = .ok (.error cause) r) :
      (backend.withTemp n (.alloc n) body).outcome r = (.error (.error (.alloc n cause)), r) := by
    rw [Action.outcome, Backend.withTemp_refused asked]
  have lent {r : Recorder α} (asked : (alloc n : Action (Recorder α) WalkError _) r =
        .ok (.ok ⟨.temp, r.nextTemp, 0⟩) (r.opened n)) :
      (backend.withTemp n (.alloc n) body).outcome r =
        ((body ⟨⟨.temp, r.nextTemp, 0⟩, n, false⟩).closing
          (free ⟨.temp, r.nextTemp, 0⟩)).outcome (r.opened n) := by
    rw [Action.outcome, Backend.withTemp_lent asked]
    rfl
  -- Whether the block is lent decides what has grown, and the work has kept what it must.
  refine ⟨fun r => ?_, fun r => ?_, fun r kept => ?_, fun r kept => ?_⟩
  · rcases alloc_cases (ε := WalkError) n r with ⟨cause, asked⟩ | asked
    · rw [refused asked]
    · rw [lent asked]
      exact (List.suffix_cons _ _).trans ((worked r).grows (r.opened n))
  · rcases alloc_cases (ε := WalkError) n r with ⟨cause, asked⟩ | asked
    · rw [refused asked]
    · rw [lent asked]
      exact (worked r).limit (r.opened n)
  · rcases alloc_cases (ε := WalkError) n r with ⟨cause, asked⟩ | asked
    · rwa [refused asked]
    · rw [lent asked]
      exact (worked r).kept _ (kept.opened n)
  -- An improper size is refused with and without a limit.
  by_cases proper : n ≤ 0
  · exact .inl (by rw [refused (alloc_improper proper), refused (alloc_improper proper)])
  have free : (backend.withTemp n (.alloc n) body).outcome r.unlimited =
      ((body ⟨⟨.temp, r.nextTemp, 0⟩, n, false⟩).closing
        (free ⟨.temp, r.nextTemp, 0⟩)).outcome (r.opened n).unlimited :=
    lent (alloc_granted proper (by simp [unlimited]))
  by_cases limited : (r.limit > 0 && r.liveElements + n > r.limit) = true
  · -- The block is refused here, and lent without a limit.
    refine .inr ⟨r, n, [], ⟨kept, proper, limited⟩, rfl, ⟨_, ?_, .inl rfl⟩, ?_, by simp, ?_⟩
    · rw [refused (alloc_limited proper limited)]
    · rw [refused (alloc_limited proper limited)]
      rfl
    · rw [free]
      exact (worked r).grows (r.opened n).unlimited
  · -- The block is lent to both, and they part where the work on it does.
    have granted := lent (alloc_granted proper limited)
    rcases (worked r).parts (r.opened n) (kept.opened n) with
      together | ⟨stop, size, frees, apart⟩
    · exact .inl (by rw [free, granted, together])
    · exact .inr ⟨stop, size, frees, apart.of_outcome granted free rfl⟩

end Parts

/-- All that a walk is made of parts only where a block is refused. -/
theorem related_parts : Walk.Related (backend : Backend (Recorder α) WalkError α Ref) backend
    (fun _ body _ => Parts body) where
  -- Answers, stops and offsets change nothing, and the operations were looked at one by one.
  pure a := .still (.ok a) (fun _ => rfl)
  throw halt := .still (.error halt) (fun _ => rfl)
  bind first next := first.bind next
  offset _ _ := .still _ (fun _ => rfl)
  one := .one
  two := .two
  withTemp n _ _ works := .withTemp n works

end Recorder

namespace Program

/-- The place in a program where memory with a limit does not lend a block. -/
structure Cut (p : Program α) (limit : Int64) (pc : Nat) (i : Instr α) : Prop where
  next : p.instrs[pc]? = some i
  asks : i.op = .alloc
  proper : ¬ i.len ≤ 0
  limited : (limit > 0 && (Instr.booked (p.instrs.take pc)).2 + i.len > limit) = true

/--
A recording that is refused a block is cut short there.

It has the instructions of the program up to the block, and then only ends temporaries.
-/
theorem exists_cut [Elem α] [Written α] {root : Expr α} {paths limit : Int64} {seeds : NameMap α}
    {p : Program α} (compiled : compile root paths seeds 0 = .ok p) {c : Context α Ref}
    (declares : Declares c paths seeds) {cause : WalkError} {r : Recorder α}
    (stopped : Walk.generate Recorder.backend c root (declared paths limit seeds) =
      .error (.error cause) r) :
    ∃ pc i, p.Cut limit pc i ∧ r.CutAfter (p.instrs.take pc) ∧
      cause = .alloc i.len (.recordLimit i.len (Instr.booked (p.instrs.take pc)).2 limit) := by
  obtain ⟨c', r', text, declares', walked, _, rfl⟩ := exists_of_compile compiled
  obtain rfl := declares.unique declares'
  have ran : (Walk.generate Recorder.backend c root).outcome (declared paths limit seeds) =
      (.error (.error cause), r) := by rw [Action.outcome, stopped]
  have through : (Walk.generate Recorder.backend c root).outcome
      (declared paths limit seeds).unlimited = (.ok (), r') := by
    show (Walk.generate Recorder.backend c root).outcome (declared paths 0 seeds) = _
    rw [Action.outcome, walked]
  have parts := (Recorder.related_parts.generate c root).parts (declared paths limit seeds) rfl
  rw [ran] at parts
  rcases parts with together | ⟨stop, size, frees, apart⟩
  · -- One of the two recordings has stopped and the other has not.
    rw [through] at together
    cases together
  -- The walk has not ended in a misuse, so the refused block is what is reported.
  obtain ⟨halt, ended, reports⟩ := apart.stopped
  rw [ran] at ended
  obtain rfl : halt = .error cause := (Except.error.inj ended).symm
  -- What the recording without a limit has behind the block does not matter.
  obtain ⟨more, goes⟩ := apart.goes
  rw [through] at goes
  have instrs : r'.recorded.reverse = stop.recorded.reverse ++
      ⟨.alloc, ⟨.temp, stop.nextTemp, 0⟩, .value, Elem.zero, size⟩ :: more.reverse := by
    rw [← goes]
    simp [Recorder.opened]
  -- The program up to the block is what was recorded before it.
  have first : r'.recorded.reverse.take stop.recorded.length = stop.recorded.reverse := by
    rw [instrs, List.take_left' (List.length_reverse ..)]
  have kept : (Instr.booked stop.recorded.reverse).2 = stop.liveElements :=
    (congrArg Prod.snd apart.refuses.kept).symm
  have limit : stop.limit = limit := apart.limit
  refine ⟨stop.recorded.length, ⟨.alloc, ⟨.temp, stop.nextTemp, 0⟩, .value, Elem.zero, size⟩,
    ⟨by rw [instrs]; simp, rfl, apart.refuses.proper, ?_⟩,
    ⟨frees.reverse, ?_, by simpa using apart.ends⟩, ?_⟩
  · rw [first, kept, ← limit]
    exact apart.refuses.limited
  · have recorded := apart.recorded
    rw [ran] at recorded
    rw [first, recorded, List.reverse_append]
  · rw [first, kept, ← limit]
    rcases reports with same | ⟨misuse, same⟩
    · exact Halt.error.inj same
    · cases same

end Program

end Tangent
