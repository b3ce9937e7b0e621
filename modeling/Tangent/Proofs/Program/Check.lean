import Tangent.Program.Validate
import Tangent.Proofs.Vector.Backend

/-! What the check of a program accepts, instruction by instruction. -/

namespace Tangent

variable {α ν : Type}

/-- What an instruction asks for. -/
inductive Instr.Task (α : Type) where
  | alloc
  | free
  | one (op : Unary α)
  | two (op : Binary)
  | unknown (name : String)

/-- The task of an instruction. -/
def Instr.task (i : Instr α) : Instr.Task α :=
  match i.op with
  | .alloc => .alloc
  | .free => .free
  | .fill => .one (.fill i.scalar)
  | .zero => .one .zero
  | .exp => .one .exp
  | .copy => .two .copy
  | .add => .two .add
  | .mul => .two .mul
  | .other name _ => .unknown name

/-- Blocks are asked for by one operation. -/
theorem Instr.task_eq_alloc {i : Instr α} : i.task = .alloc ↔ i.op = .alloc := by
  -- Every other operation has a task of another kind.
  unfold Instr.task
  split <;> simp_all

/-- Blocks are given back by one operation. -/
theorem Instr.task_eq_free {i : Instr α} : i.task = .free ↔ i.op = .free := by
  -- No other operation has this task.
  unfold Instr.task
  split <;> simp_all

namespace TempTable

/-- A temporary that was added is known, and of all others what was known before. -/
theorem find?_insert (table : TempTable ν) (index other : Int64) (known : ν) :
    (table.insert index known).find? other =
      if index = other then some known else table.find? other := by
  by_cases same : index = other
  · simp [insert, find?, same]
  · -- Only entries of the added temporary were dropped, and those are not looked for.
    have kept : List.find? (fun entry => entry.1 == other)
        (List.filter (fun entry => entry.1 != index) table) =
        List.find? (fun entry => entry.1 == other) table := by
      rw [List.find?_filter]
      congr 1
      funext entry
      by_cases found : entry.1 = other
      · simp [found, Ne.symm same]
      · simp [found]
    simp [insert, find?, same, kept]

/-- Of a temporary that was forgotten nothing is known. -/
theorem find?_erase (table : TempTable ν) (index other : Int64) :
    (table.erase index).find? other = if index = other then none else table.find? other := by
  by_cases same : index = other
  · subst same
    simp [erase, find?, List.find?_eq_none]
  · -- The entries that were dropped are not those that are looked for.
    rw [if_neg same, erase, find?, find?, List.find?_filter]
    congr 2
    funext entry
    by_cases found : entry.1 = other
    · simp [found, Ne.symm same]
    · simp [found]

variable {μ : Type} (f : ν → μ)

/-- A table with something else known of each temporary. -/
def mapValues (table : TempTable ν) : TempTable μ :=
  List.map (fun entry => (entry.1, f entry.2)) table

/-- What is known of a temporary is changed with all the others. -/
theorem find?_mapValues (table : TempTable ν) (index : Int64) :
    (table.mapValues f).find? index = (table.find? index).map f := by
  -- The numbers of the temporaries are left as they are.
  rw [mapValues, find?, find?, List.find?_map, Option.map_map, Option.map_map]
  rfl

/-- Temporaries can be forgotten before or after the change. -/
theorem erase_mapValues (table : TempTable ν) (index : Int64) :
    (table.mapValues f).erase index = (table.erase index).mapValues f := by
  -- Entries are dropped by their number, which the change leaves as it is.
  rw [mapValues, erase, List.filter_map]
  rfl

/-- Temporaries can be added before or after the change. -/
theorem insert_mapValues (table : TempTable ν) (index : Int64) (known : ν) :
    (table.mapValues f).insert index (f known) = (table.insert index known).mapValues f :=
  -- Adding is dropping and then entering in front.
  congrArg ((index, f known) :: ·) (erase_mapValues f table index)

end TempTable

namespace Program

variable {p : Program α} {v : Validation} {pc : Nat} {r : Ref}

/-- An instruction is checked by its task. -/
theorem checkInstr_eq [Written α] (p : Program α) (v : Validation) (pc : Nat) (i : Instr α) :
    p.checkInstr v pc i =
      match i.task with
      | .alloc =>
        if i.dst.space ≠ .temp || i.dst.offset ≠ 0 || i.len ≤ 0 then .error (.badAlloc pc i.text)
        else if (v.seen.find? i.dst.index).isSome then .error (.allocatedTwice pc i.dst.index)
        else .ok ⟨v.live.insert i.dst.index i.len, v.seen.insert i.dst.index ()⟩
      | .free =>
        if i.dst.space ≠ .temp || i.dst.offset ≠ 0 then .error (.badFree pc i.text)
        else if (v.live.find? i.dst.index).isNone then .error (.doubleFree pc)
        else .ok ⟨v.live.erase i.dst.index, v.seen⟩
      | .one _ => (p.checkOperand v pc i.dst i.len).map (fun _ => v)
      | .two _ => (p.checkPair v pc i).map (fun _ => v)
      | .unknown name => .error (.unknownOp pc name) := by
  -- The tasks sort the operations in the way in which they are checked.
  unfold checkInstr Instr.task
  cases i.op <;> rfl

/-- An operand is accepted when its elements end inside its buffer. -/
theorem checkOperand_eq_ok {n : Int64} :
    p.checkOperand v pc r n = .ok () ↔
      ∃ size, p.operandSize v pc r = .ok size ∧ 0 ≤ r.offset ∧ 0 ≤ n ∧ r.offset + n ≤ size := by
  -- Without a buffer there is nothing to compare with.
  cases found : p.operandSize v pc r with
  | error cause => simp [checkOperand, found, Bind.bind, Except.bind]
  | ok size =>
    simp [checkOperand, found, Bind.bind, Except.bind, and_assoc]

/-- What is known of an instruction that is accepted, and after it. -/
def Accepted (p : Program α) (v : Validation) (pc : Nat) (i : Instr α) (v' : Validation) : Prop :=
  match i.task with
  | .alloc => 0 < i.len ∧ v.seen.find? i.dst.index = none ∧
    v' = ⟨v.live.insert i.dst.index i.len, v.seen.insert i.dst.index ()⟩
  | .free => (v.live.find? i.dst.index).isSome ∧ v' = ⟨v.live.erase i.dst.index, v.seen⟩
  | .one _ => p.checkOperand v pc i.dst i.len = .ok () ∧ v' = v
  | .two _ => p.checkOperand v pc i.src i.len = .ok () ∧ p.checkOperand v pc i.dst i.len = .ok () ∧
    v' = v
  | .unknown _ => False

/-- An instruction is accepted for what it asks for. -/
theorem accepted_of_checkInstr [Written α] {i : Instr α} {v' : Validation}
    (accepted : p.checkInstr v pc i = .ok v') : p.Accepted v pc i v' := by
  rw [checkInstr_eq] at accepted
  unfold Accepted
  cases task : i.task with
  | alloc =>
    simp only [task] at accepted
    -- Past both complaints the number is new and the size positive.
    split at accepted
    · simp at accepted
    · rename_i proper
      split at accepted
      · simp at accepted
      · rename_i fresh
        simp only [ne_eq, Bool.or_eq_true, decide_eq_true_eq, not_or, not_not] at proper
        exact ⟨Int64.not_le.mp proper.2, by simpa using fresh, (Except.ok.inj accepted).symm⟩
  | free =>
    simp only [task] at accepted
    split at accepted
    · simp at accepted
    · split at accepted
      · simp at accepted
      · rename_i live
        exact ⟨by simpa [Option.isSome_iff_ne_none] using live, (Except.ok.inj accepted).symm⟩
  | one op =>
    simp only [task] at accepted
    obtain ⟨_, target, same⟩ := ok_of_map accepted
    exact ⟨target, same.symm⟩
  | two op =>
    simp only [task] at accepted
    -- The pair is accepted when its source is and then its destination.
    obtain ⟨_, pair, same⟩ := ok_of_map accepted
    obtain ⟨_, source, target⟩ := ok_of_bind pair
    exact ⟨source, target, same.symm⟩
  | unknown name => simp [task] at accepted

/-- What is known of temporaries after one more instruction. -/
inductive Follows (v : Validation) (i : Instr α) : Validation → Prop
  | begins (asks : i.op = .alloc) (positive : 0 < i.len) (fresh : v.seen.find? i.dst.index = none) :
      Follows v i ⟨v.live.insert i.dst.index i.len, v.seen.insert i.dst.index ()⟩
  | ends (asks : i.op = .free) (known : (v.live.find? i.dst.index).isSome) :
      Follows v i ⟨v.live.erase i.dst.index, v.seen⟩
  | keeps (other : i.op ≠ .alloc ∧ i.op ≠ .free) : Follows v i v

/-- An accepted instruction begins a temporary, ends one, or leaves all of them alone. -/
theorem Accepted.follows {i : Instr α} {v' : Validation} (accepted : p.Accepted v pc i v') :
    Follows v i v' := by
  -- The task of an instruction tells what its operation is not.
  have other (begins : i.task ≠ .alloc) (ends : i.task ≠ .free) : Follows v i v :=
    .keeps ⟨fun asks => begins (Instr.task_eq_alloc.mpr asks),
      fun asks => ends (Instr.task_eq_free.mpr asks)⟩
  unfold Accepted at accepted
  cases task : i.task with
  | alloc =>
    simp only [task] at accepted
    obtain ⟨positive, fresh, rfl⟩ := accepted
    exact .begins (Instr.task_eq_alloc.mp task) positive fresh
  | free =>
    simp only [task] at accepted
    obtain ⟨known, rfl⟩ := accepted
    exact .ends (Instr.task_eq_free.mp task) known
  | one op =>
    simp only [task] at accepted
    exact accepted.2 ▸ other (by simp [task]) (by simp [task])
  | two op =>
    simp only [task] at accepted
    exact accepted.2.2 ▸ other (by simp [task]) (by simp [task])
  | unknown name => simp [task] at accepted

/-- Accepted instructions are accepted one after the other. -/
theorem checkInstrs_cons_ok [Written α] {i : Instr α} {rest : List (Instr α)} {v' : Validation}
    (checked : p.checkInstrs v pc (i :: rest) = .ok v') :
    ∃ w, p.Accepted v pc i w ∧ p.checkInstrs w (pc + 1) rest = .ok v' := by
  -- The check of the others starts with what the first one leaves.
  obtain ⟨w, first, others⟩ := ok_of_bind checked
  exact ⟨w, accepted_of_checkInstr first, others⟩

/-- Instructions are checked in one go or in two. -/
theorem checkInstrs_append [Written α] (p : Program α) (v : Validation) (pc : Nat)
    (first second : List (Instr α)) :
    p.checkInstrs v pc (first ++ second) =
      (p.checkInstrs v pc first >>= fun v => p.checkInstrs v (pc + first.length) second) := by
  -- What is known and the position move on with every instruction.
  induction first generalizing v pc with
  | nil => rfl
  | cons i rest ih =>
    simp only [List.cons_append, checkInstrs, List.length_cons, bind_assoc]
    congr 1
    funext v
    rw [ih, Nat.add_assoc, Nat.add_comm 1]

/-- One more instruction is checked after the others. -/
theorem checkInstrs_concat [Written α] {done : List (Instr α)} {i : Instr α} {v' v'' : Validation}
    (checked : p.checkInstrs v pc done = .ok v')
    (accepted : p.checkInstr v' (pc + done.length) i = .ok v'') :
    p.checkInstrs v pc (done ++ [i]) = .ok v'' := by
  -- The check of the last one starts with what the others leave.
  rw [checkInstrs_append, checked]
  simp only [Bind.bind, Except.bind, checkInstrs, accepted]

/-- A safe program has paths, and all its instructions are accepted. -/
theorem checkInstrs_of_validate [Written α] (safe : p.validate = .ok ()) :
    0 < p.paths ∧ ∃ v, p.checkInstrs ⟨[], []⟩ 0 p.instrs = .ok v := by
  -- Each of the checks was passed, one after the other.
  unfold validate at safe
  dsimp only at safe
  obtain ⟨some, safe⟩ := ok_of_guard safe
  obtain ⟨v, checked, _⟩ := ok_of_bind safe
  exact ⟨Int64.not_le.mp some, v, checked⟩

/-- At the end of a safe program no temporary is live. -/
theorem live_of_validate [Written α] (safe : p.validate = .ok ()) {v : Validation}
    (checked : p.checkInstrs ⟨[], []⟩ 0 p.instrs = .ok v) : v.live = [] := by
  unfold validate at safe
  dsimp only at safe
  obtain ⟨_, safe⟩ := ok_of_guard safe
  rw [checked] at safe
  -- The last thing that is looked at is whether any is left.
  by_contra left
  have some : v.live.isEmpty = false := by simpa [List.isEmpty_eq_false_iff] using left
  simp only [Bind.bind, Except.bind, some, Bool.false_eq_true, if_false] at safe
  cases safe

end Program

end Tangent
