import Tangent.Proofs.Program.Compile
import Tangent.Proofs.Walk.Returns

/-!
How long a recording gets.

A walk over a tree takes a number of instructions that only the shape of the tree decides. Since a
product multiplies every factor into every partial product, a short program has no broad blocks.
-/

namespace Tangent

variable {ε τ τ' α : Type}

namespace Expr

mutual

/-- The number of instructions that a walk over a tree takes. -/
def steps : Expr α → Nat
  | .const _ => 2
  | .var _ => 2
  | .add operands => stepsOf operands + 2 * operands.length + 5
  | .mul operands =>
    stepsOf operands + operands.length * (operands.length + 1) + operands.length + 4
  | .exp exponent => exponent.steps + 2
  | .hole => 0
  | .unset _ => 0

/-- The number of instructions that walks over several trees take. -/
def stepsOf : List (Expr α) → Nat
  | [] => 0
  | e :: rest => e.steps + stepsOf rest

end

/-- Every block takes an instruction to begin. -/
theorem blocks_le_steps (e : Expr α) : e.blocks ≤ e.steps := by
  -- What holds for each operand holds for all of them together.
  have all {operands : List (Expr α)} (each : ∀ e ∈ operands, e.blocks ≤ e.steps) :
      blocksOf operands ≤ stepsOf operands := by
    induction operands with
    | nil => exact Nat.le_refl 0
    | cons e rest ih =>
      rw [List.forall_mem_cons] at each
      exact Nat.add_le_add each.1 (ih each.2)
  induction e using Expr.induction with
  | add operands ih =>
    have := all ih
    simp only [blocks, steps]
    omega
  | mul operands ih =>
    have := all ih
    simp only [blocks, steps]
    omega
  | exp exponent ih => exact Nat.le_add_right_of_le ih
  | _ => exact Nat.zero_le _

/-- A block with many stretches takes the square of their number in instructions. -/
theorem broadest_le_of_steps {k : Nat} (some : 1 ≤ k) (e : Expr α) (few : e.steps ≤ k * k) :
    e.broadest ≤ k + 1 := by
  have all {operands : List (Expr α)}
      (each : ∀ e ∈ operands, e.steps ≤ k * k → e.broadest ≤ k + 1)
      (few : stepsOf operands ≤ k * k) : broadestOf operands ≤ k + 1 := by
    induction operands with
    | nil => exact Nat.zero_le _
    | cons e rest ih =>
      rw [List.forall_mem_cons] at each
      rw [stepsOf] at few
      exact Nat.max_le.mpr ⟨each.1 (by omega), ih each.2 (by omega)⟩
  induction e using Expr.induction with
  | add operands ih =>
    rw [steps] at few
    have own : stretches operands 2 ≤ k + 1 := by
      unfold stretches
      split <;> omega
    exact Nat.max_le.mpr ⟨own, all ih (by omega)⟩
  | mul operands ih =>
    rw [steps] at few
    -- More factors than that would take more instructions than there are.
    have factors : operands.length ≤ k := by
      refine Nat.mul_self_le_mul_self_iff.mp ?_
      rw [Nat.mul_add_one] at few
      omega
    have own : stretches operands (operands.length + 1) ≤ k + 1 := by
      unfold stretches
      split <;> omega
    exact Nat.max_le.mpr ⟨own, all ih (by omega)⟩
  | exp exponent ih =>
    rw [steps] at few
    exact ih (by omega)
  | _ => exact Nat.zero_le _

end Expr

/-- What is closed and gets through, got through before it was closed. -/
theorem Action.closing_eq_ok {σ : Type} {body : Action σ ε τ} {close : Action σ ε Unit}
    {s u : σ} {a : τ} (ran : body.closing close s = .ok a u) :
    ∃ t, body s = .ok a t ∧ close t = .ok () u := by
  -- Both have got through, as an error of either would be an error of the whole.
  unfold closing at ran
  split at ran
  · rename_i first
    split at ran
    · rename_i last
      cases ran
      exact ⟨_, first, last⟩
    · cases ran
  · split at ran <;> cases ran

namespace Recorder

/-- A recorder that went on from another one, with so many instructions. -/
structure Extends (m : Nat) (r r' : Recorder α) : Prop where
  paths : r'.paths = r.paths
  declared : r'.declared = r.declared
  longer : r'.recorded.length = r.recorded.length + m

/-- A recorder that goes on twice has the instructions of both times. -/
theorem Extends.trans {m n : Nat} {r r' r'' : Recorder α} (early : Extends m r r')
    (late : Extends n r' r'') : Extends (m + n) r r'' where
  -- The instructions of the second time come on top of those of the first.
  paths := late.paths.trans early.paths
  declared := late.declared.trans early.declared
  longer := by rw [late.longer, early.longer, Nat.add_assoc]

/-- A computation that takes so many instructions if it gets through. -/
def Takes (m : Nat) (body : Action (Recorder α) ε τ) : Prop :=
  ∀ r a r', body r = .ok a r' → Extends m r r'

namespace Takes

variable {m n : Nat}

/-- What leaves the recorder alone takes no instruction. -/
theorem still {body : Action (Recorder α) ε τ} (kept : ∀ r a r', body r = .ok a r' → r' = r) :
    Takes 0 body := by
  -- The recorder has as many instructions as before.
  intro r a r' ran
  cases kept r a r' ran
  exact ⟨rfl, rfl, rfl⟩

/-- What never gets through takes whatever is said. -/
theorem fail (cause : ε) : Takes m (Action.fail cause : Action (Recorder α) ε τ) :=
  -- There is no end to say anything about.
  fun _ _ _ ran => by cases ran

/-- Computations take their instructions one after the other. -/
theorem bind {body : Action (Recorder α) ε τ} {next : τ → Action (Recorder α) ε τ'}
    (first : Takes m body) (second : ∀ a, Takes n (next a)) : Takes (m + n) (body >>= next) := by
  -- The second computation goes on where the first one ended.
  intro r b r'' ran
  obtain ⟨a, r', before, after⟩ := Action.bind_eq_ok.mp ran
  exact (first r a r' before).trans (second a r' b r'' after)

/-- An instruction that is written down is one. -/
theorem emit (i : Instr α) : Takes 1 (Recorder.emit i : Action (Recorder α) ε Unit) := by
  -- It is put in front of the instructions so far, and nothing else changes.
  intro r _ r' ran
  cases ran
  exact ⟨rfl, rfl, rfl⟩

/-- Asking whether an operand may be used takes no instruction. -/
theorem use (ref : Ref) : Takes 0 (Recorder.use ref : Action (Recorder α) ε Unit) := by
  -- The question is answered with the recorder as it was, or with a stop.
  refine still (fun r _ r' ran => ?_)
  rcases use_cases (ε := ε) ref r with used | ⟨text, stopped⟩
  · cases used.symm.trans ran
    rfl
  · cases stopped.symm.trans ran

variable [Elem α]

/-- An operation on one operand takes an instruction. -/
theorem one (op : Unary α) (x : Ref) (len : Int64) :
    Takes 1 (backend.one op x len : Action (Recorder α) ε Unit) := by
  -- The operand is looked at, and then one instruction is written down.
  cases op <;> exact (use x).bind (fun _ => emit _)

/-- An operation on two operands takes an instruction. -/
theorem two (op : Binary) (x y : Ref) (len : Int64) :
    Takes 1 (backend.two op x y len : Action (Recorder α) ε Unit) := by
  -- Both operands are looked at, and then one instruction is written down.
  cases op <;> exact (use x).bind (fun _ => (use y).bind (fun _ => emit _))

/-- Writing a constant takes an instruction. -/
theorem set (x : Ref) (value : α) (len : Int64) :
    Takes 1 (backend.set x value len : Action (Recorder α) ε Unit) := by
  -- A constant is written by an operation on one operand.
  rw [Backend.set_eq_one]
  exact one _ x len

/-- Ending a temporary takes an instruction. -/
theorem free (ref : Ref) : Takes 1 (Recorder.free ref : Action (Recorder α) ε Unit) := by
  intro r _ r' ran
  simp only [Recorder.free] at ran
  split at ran
  · cases ran
  · -- Only a live temporary can end, and its end is the instruction.
    cases found : r.live.find? ref.index with
    | none =>
      simp only [Action.get_bind, found] at ran
      cases ran
    | some size =>
      simp only [Action.get_bind, found] at ran
      cases ran
      exact ⟨rfl, rfl, rfl⟩

/-- Work on a borrowed block takes an instruction to begin and one to end. -/
theorem withTemp {len : Int64} {refused : AllocError → ε}
    {body : Temp Ref → Action (Recorder α) ε Unit} (each : ∀ temp, Takes m (body temp)) :
    Takes (m + 2) (backend.withTemp len refused body) := by
  intro r _ r'' ran
  rcases alloc_cases (ε := ε) len r with ⟨cause, denied⟩ | granted
  · -- A request that is refused stops the work.
    have asked : (backend.acquire len : Action (Recorder α) ε _) r = .ok (.error cause) r :=
      Action.bind_ok denied
    cases ((Action.bind_ok asked).symm.trans ran :)
  · have asked : (backend.acquire len : Action (Recorder α) ε _) r =
        .ok (.ok ⟨⟨.temp, r.nextTemp, 0⟩, len, false⟩) (r.opened len) := Action.bind_ok granted
    obtain ⟨r', worked, closed⟩ :=
      Action.closing_eq_ok (((Action.bind_ok asked).symm.trans ran :))
    have first : Extends 1 r (r.opened len) := ⟨rfl, rfl, rfl⟩
    have last := free ⟨.temp, r.nextTemp, 0⟩ r' () r'' closed
    rw [show m + 2 = 1 + m + 1 by omega]
    exact (first.trans (each _ _ _ _ worked)).trans last

/-- A stretch of a block takes no instruction. -/
theorem slot (temp : Temp Ref) (i stride : Int64) :
    Takes 0 (backend.slot temp i stride : Action (Recorder α) ε Ref) := by
  -- A stretch is found from the handle alone, or it is a misuse.
  refine still (fun r _ r' ran => ?_)
  unfold Backend.slot at ran
  split at ran
  · cases ran
  · cases ran
    rfl

/-- Stretches of a block take no instruction, and there are as many as were asked for. -/
theorem slots {temp : Temp Ref} {stride : Int64} {count : Nat} {i : Int64}
    {next : List Ref → Action (Recorder α) ε τ}
    (each : ∀ xs : List Ref, xs.length = count → Takes m (next xs)) :
    Takes m (backend.slots temp stride i count >>= next) := by
  -- One stretch after the other is handed to what follows.
  induction count generalizing i next with
  | zero => exact each [] rfl
  | succ count ih =>
    -- The sequence is bracketed so that what follows takes the stretches one by one.
    rw [Backend.slots, bind_assoc]
    rw [← Nat.zero_add m]
    refine (slot temp i stride).bind (fun first => ?_)
    rw [bind_assoc]
    refine ih (fun others number => ?_)
    exact each (first :: others) (congrArg (· + 1) number)

/-- Multiplications by a source take an instruction each. -/
theorem mulEach (src : Ref) (len : Int64) (xs : List Ref) :
    Takes xs.length (Walk.mulEach backend src len xs : Action (Recorder α) WalkError Unit) := by
  -- There is one multiplication for each of the destinations.
  induction xs with
  | nil => exact still (fun _ _ _ ran => by cases ran; rfl)
  | cons x xs ih =>
    rw [List.length_cons, Nat.add_comm]
    exact (two .mul src x len).bind (fun _ => ih)

/-- Additions to a destination take an instruction each. -/
theorem addEach (dst : Ref) (len : Int64) (xs : List Ref) :
    Takes xs.length (Walk.addEach backend dst len xs : Action (Recorder α) WalkError Unit) := by
  -- There is one addition for each of the sources.
  induction xs with
  | nil => exact still (fun _ _ _ ran => by cases ran; rfl)
  | cons x xs ih =>
    rw [List.length_cons, Nat.add_comm]
    exact (two .add x dst len).bind (fun _ => ih)

/-- The sum of partial products takes an instruction for each of them. -/
theorem sumPartials (deriv : Ref) (len : Int64) (xs : List Ref) :
    Takes xs.length
      (Walk.sumPartials backend deriv len xs : Action (Recorder α) WalkError Unit) := by
  -- The first partial product is copied and each other one is added.
  cases xs with
  | nil => exact still (fun _ _ _ ran => by cases ran; rfl)
  | cons x xs =>
    rw [List.length_cons, Nat.add_comm]
    exact (two .copy x deriv len).bind (fun _ => addEach deriv len xs)

variable {c : Context α Ref}

/-- Sums take two instructions for each operand. -/
theorem visitSum (value deriv : Ref) {operands : List (Expr α)}
    (each : ∀ e ∈ operands, Takes e.steps (Walk.visit backend c e)) :
    Takes (Expr.stepsOf operands + 2 * operands.length)
      (Walk.visitSum backend c value deriv operands) := by
  induction operands with
  | nil => exact still (fun _ _ _ ran => by cases ran; rfl)
  | cons e rest ih =>
    rw [List.forall_mem_cons] at each
    -- The operand takes its own instructions, and then two take it into the sum.
    have count : Expr.stepsOf (e :: rest) + 2 * (e :: rest).length =
        e.steps + (1 + (1 + (Expr.stepsOf rest + 2 * rest.length))) := by
      rw [Expr.stepsOf, List.length_cons]
      omega
    rw [count]
    refine each.1.bind (fun _ => ?_)
    refine (two .add c.value value c.paths).bind (fun _ => ?_)
    exact (two .add c.deriv deriv c.paths).bind (fun _ => ih each.2)

/-- Products take one instruction more for each factor than there are partial products. -/
theorem visitProduct (value : Ref) {operands : List (Expr α)}
    (each : ∀ e ∈ operands, Takes e.steps (Walk.visit backend c e)) {total : Nat} :
    ∀ before after : List Ref, after.length = operands.length →
      before.length + after.length = total →
      Takes (Expr.stepsOf operands + operands.length * (total + 1))
        (Walk.visitProduct backend c value before after operands) := by
  -- Partial products go from one list to the other, and their total stays.
  induction operands with
  | nil =>
    intro before after _ _
    rw [List.length_nil, Nat.zero_mul]
    exact still (fun _ _ _ ran => by cases ran; rfl)
  | cons e rest ih =>
    intro before after enough all
    rw [List.forall_mem_cons] at each
    cases after with
    | nil => cases enough
    | cons own after =>
      simp only [List.length_cons] at enough all
      -- The factor takes its own instructions, one for the value and one for each partial product.
      have count : Expr.stepsOf (e :: rest) + (e :: rest).length * (total + 1) =
          e.steps + (1 + (1 + (before.length + (after.length +
            (Expr.stepsOf rest + rest.length * (total + 1)))))) := by
        rw [Expr.stepsOf, List.length_cons, Nat.add_one_mul]
        omega
      rw [count]
      refine each.1.bind (fun _ => ?_)
      refine (two .mul c.value value c.paths).bind (fun _ => ?_)
      refine (two .mul c.deriv own c.paths).bind (fun _ => ?_)
      refine (mulEach c.value c.paths before).bind (fun _ => ?_)
      refine (mulEach c.value c.paths after).bind (fun _ => ?_)
      refine ih each.2 _ _ (by omega) ?_
      rw [List.length_append, List.length_singleton]
      omega

/-- A walk takes the instructions of its tree. -/
theorem visit (e : Expr α) : Takes e.steps (Walk.visit backend c e) := by
  induction e using Expr.induction with
  | const value => exact (set c.value value c.paths).bind (fun _ => one .zero c.deriv c.paths)
  | var name =>
    have found : Takes 0 (Action.ofExcept (c.lookup name) : Action (Recorder α) WalkError _) :=
      still (fun r _ r' ran => (Action.ofExcept_eq_ok.mp ran).2)
    refine found.bind (fun binding => ?_ : ∀ binding, Takes (1 + 1) _)
    exact (two .copy binding.data c.value c.paths).bind (fun _ =>
      set c.deriv binding.seed c.paths)
  | add operands ih =>
    rw [Walk.visit]
    split
    · exact fail _
    · -- The block begins and ends, it is cleared once, and two results are copied out.
      have count : (Expr.add operands).steps =
          0 + (0 + (1 + (Expr.stepsOf operands + 2 * operands.length + (1 + 1)))) + 2 := by
        rw [Expr.steps]
        omega
      rw [count]
      refine withTemp (fun temp => ?_)
      refine (slot temp 0 c.paths).bind (fun value => ?_)
      refine (slot temp 1 c.paths).bind (fun deriv => ?_)
      refine (one .zero temp.buffer (2 * c.paths)).bind (fun _ => ?_)
      refine (visitSum value deriv ih).bind (fun _ => ?_)
      exact (two .copy value c.value c.paths).bind (fun _ => two .copy deriv c.deriv c.paths)
  | mul operands ih =>
    rw [Walk.visit]
    split
    · exact fail _
    · -- The block begins and ends, it is filled once, and the partial products are added up.
      have count : (Expr.mul operands).steps =
          0 + (1 + (Expr.stepsOf operands + operands.length * (operands.length + 1) +
            (operands.length + 1))) + 2 := by
        rw [Expr.steps]
        omega
      rw [count]
      refine withTemp (fun temp => ?_)
      refine (slot temp 0 c.paths).bind (fun value => ?_)
      -- How many instructions follow depends on the number of stretches.
      refine slots (fun partials number => ?_)
      refine (one (.fill Elem.one) temp.buffer _).bind (fun _ => ?_)
      refine (visitProduct value ih [] partials number (by simp [number])).bind (fun _ => ?_)
      rw [← number]
      refine (sumPartials c.deriv c.paths partials).bind (fun _ => ?_)
      exact two .copy value c.value c.paths
  | exp exponent ih =>
    refine ih.bind (fun _ => ?_)
    exact (one .exp c.value c.paths).bind (fun _ => two .mul c.value c.deriv c.paths)
  | hole => exact fail _
  | unset kind => exact fail _

end Takes

end Recorder

namespace Program

/-- A compiled program keeps its paths and variables, and has the instructions of its tree. -/
theorem length_of_compile [Elem α] [Written α] {root : Expr α} {paths limit : Int64}
    {seeds : NameMap α} {p : Program α} (compiled : compile root paths seeds limit = .ok p) :
    p.paths = paths ∧ p.vars = seeds.names ∧ p.seeds = seeds.entries.map (·.2) ∧
      p.instrs.length = root.steps := by
  obtain ⟨c, r, text, _, walked, _, rfl⟩ := exists_of_compile compiled
  -- The check of the context records nothing.
  obtain ⟨_, _, accepted, visited⟩ := Action.bind_eq_ok.mp walked
  obtain rfl := (Action.ofExcept_eq_ok.mp accepted).2
  have extended := Recorder.Takes.visit root _ _ _ visited
  refine ⟨extended.paths, ?_, ?_, ?_⟩
  · rw [vars, getD_listed, extended.declared, declared, List.reverse_reverse]
    rfl
  · rw [Program.seeds, getD_listed, extended.declared, declared, List.reverse_reverse]
  · rw [List.length_reverse, extended.longer]
    exact Nat.zero_add _

end Program

end Tangent
