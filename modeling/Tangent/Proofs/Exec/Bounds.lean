import Tangent.Proofs.Exec.Ending

/-!
Where the operands of a safe program lie.

The check compares the end of an operand as a machine integer. Operands that it accepts lie inside
their buffer, unless their end is out of reach of machine integers: these lead out of memory, and
are the only ones that do.
-/

namespace Tangent

variable {α : Type}

/-- A run error that blames an operand for not lying in a buffer. -/
inductive RunError.OutOfBounds : RunError → Prop where
  | notLive (pc : Nat) (instr : String) (operand : Ref) :
    OutOfBounds (.step pc instr (.notLive operand))
  | unknownSpace (pc : Nat) (instr name : String) :
    OutOfBounds (.step pc instr (.unknownSpace name))
  | outside (pc : Nat) (instr : String) (operand : Ref) (len : Int64) (size : Nat) :
    OutOfBounds (.step pc instr (.outside operand len size))

/-- The size of a buffer: a temporary has all its block, others one element for each path. -/
def Ref.size (r : Ref) (paths : Int64) (buffer : View) : Int :=
  if r.space = .temp then buffer.length else paths.toInt

/-- Elements of an operand that lie inside its buffer, unless their end wraps around. -/
structure Frame.Bounds (f : Frame) (temps : TempTable View) (paths : Int64) (r : Ref) (n : Int64)
    (buffer : View) : Prop where
  found : f.find? temps r = some buffer
  start : 0 ≤ r.offset.toInt
  count : 0 ≤ n.toInt
  long : r.size paths buffer ≤ buffer.length
  inside : r.offset.toInt + n.toInt ≤ r.size paths buffer ∨ r.Wraps n

namespace Machine.Tracks

variable {m : Machine α} {v v' : Validation} {f : Frame} {p : Program α} {pc : Nat} {r : Ref}
  {n : Int64} {i : Instr α}

/-- The check knows the size of every buffer as it is. -/
theorem size_eq (tracks : m.Tracks v) {size : Int64} {buffer : View}
    (known : p.operandSize v pc r = .ok size) (found : f.find? m.temps r = some buffer) :
    size.toInt = r.size p.paths buffer := by
  -- What the check looks up in its tables is what the machine finds in its own.
  unfold Program.operandSize at known
  unfold Frame.find? at found
  unfold Ref.size
  cases space : r.space with
  | temp =>
    simp only [space] at known found
    obtain ⟨entry, listed, same⟩ := Option.map_eq_some_iff.mp found
    -- A block is small enough for its length to be exact.
    obtain ⟨_, _, small, _⟩ := tracks.blocks entry (List.mem_of_find?_eq_some listed)
    rw [same] at small
    simp only [tracks.sizes, TempTable.find?_mapValues, found, Option.map_some,
      Except.ok.injEq] at known
    rw [← known, Host.toInt_ofNat_of_le_room small, if_pos rfl]
  | var =>
    simp only [space] at known
    split at known
    · simp at known
    · simp [Except.ok.inj known]
  | value => simp_all
  | deriv => simp_all
  | other code above => simp [space] at known

/-- Operands that the check accepts lie inside their buffer, unless their end wraps around. -/
theorem bounds (tracks : m.Tracks v) (covers : f.Covers p)
    (accepted : p.checkOperand v pc r n = .ok ()) :
    ∃ buffer, f.Bounds m.temps p.paths r n buffer := by
  obtain ⟨size, known, nonneg, forward, inside⟩ := Program.checkOperand_cases accepted
  obtain ⟨buffer, found, long⟩ := tracks.exists_buffer covers known
  have exact := tracks.size_eq known found
  rw [Int64.le_iff_toInt_le, Int64.toInt_zero] at nonneg forward
  -- The end is inside, or it is out of reach of machine integers.
  exact ⟨buffer, found, nonneg, forward, exact ▸ long,
    exact ▸ inside.imp And.right And.left⟩

/-- An accepted instruction with an operand that wraps around leads out of memory. -/
theorem step_wraps [Elem α] (tracks : m.Tracks v) (covers : f.Covers p)
    (accepted : p.Accepted v pc i v') (wraps : i.Wraps) :
    Machine.step Host.kernels f i m = .error (.fault .access) m := by
  obtain ⟨r, listed, wraps⟩ := wraps
  have stopped := tracks.resolve_wraps covers (accepted.checkOperand listed) wraps
  rw [Machine.step_eq]
  cases task : i.task with
  | one op =>
    obtain rfl : r = i.dst := by simpa [Instr.operands, task] using listed
    exact Action.bind_error stopped
  | two op =>
    -- The destination is looked for first, and may be the one that is not found.
    have target : p.checkOperand v pc i.dst i.len = .ok () :=
      accepted.checkOperand (by simp [Instr.operands, task])
    rcases tracks.resolve_cases covers target with ⟨found, _⟩ | missed
    · have source : r = i.dst ∨ r = i.src := by simpa [Instr.operands, task] using listed
      rcases source with rfl | rfl
      · rw [found] at stopped
        cases stopped
      · exact (Action.bind_ok found).trans (Action.bind_error stopped)
    · exact Action.bind_error missed
  | alloc => simp [Instr.operands, task] at listed
  | free => simp [Instr.operands, task] at listed
  | unknown name => simp [Instr.operands, task] at listed

/-- An accepted instruction whose block can be lent leads out of memory only if it wraps around. -/
theorem stops_cases [Elem α] {halt : Halt StepError}
    (tracks : m.Tracks v) (covers : f.Covers p) (accepted : p.Accepted v pc i v')
    (lendable : i.op = .alloc → i.len.toInt ≤ Host.room)
    (fails : Machine.step Host.kernels f i m = .error halt m) :
    i.Wraps ∧ halt = .fault .access ∨ ∃ cause, halt = .error (.alloc cause) := by
  by_cases wraps : i.Wraps
  · -- An operand that wraps stops the machine before anything else can.
    rw [tracks.step_wraps covers accepted wraps] at fails
    exact .inl ⟨wraps, (EStateM.Result.error.inj fails).1.symm⟩
  · rcases tracks.step covers wraps lendable accepted with ⟨_, ran, _⟩ | ⟨cause, _, refused, _⟩
    · rw [ran] at fails
      cases fails
    · rw [refused] at fails
      exact .inr ⟨cause, (EStateM.Result.error.inj fails).1.symm⟩

end Machine.Tracks

namespace Machine

variable [Elem α] [Written α] {p : Program α} {f : Frame} {m reached : Machine α} {pc : Nat}

/-- Whatever performs the first instructions of a safe program is reached by accepted ones. -/
theorem reached_of_perform (numbered : m.host.Numbered) (covers : f.Covers p)
    (safe : p.validate = .ok ()) (unused : m.temps = []) (within : pc ≤ p.instrs.length)
    (performed : perform Host.kernels f 0 (p.instrs.take pc) (m.withPatience none) =
      .ok () reached) :
    Reached p f (m.withPatience none) (p.instrs.take pc) reached := by
  rcases reached_or_stopped numbered covers safe unused pc within with
    ⟨other, here⟩ | ⟨earlier, below, other, i, halt, here, next, fails, _⟩
  · -- The machine gets there in one way only.
    obtain ⟨_, rfl⟩ := EStateM.Result.ok.inj (performed.symm.trans here.performed)
    exact here
  · -- An instruction before would have stopped the machine.
    have before : (p.instrs.take pc).take earlier = p.instrs.take earlier := by
      rw [List.take_take, Nat.min_eq_left (Nat.le_of_lt below)]
    have stopped : perform Host.kernels f 0 (p.instrs.take pc) (m.withPatience none) =
        .error (halt.map (.step earlier i.text)) _ :=
      perform_stopped (by rw [List.getElem?_take_of_lt below]; exact next)
        (by rw [before]; exact here.performed) fails nofun
    rw [performed] at stopped
    cases stopped

/-- The instruction after those that a machine has performed is accepted. -/
theorem Reached.accepted {i : Instr α} (safe : p.validate = .ok ())
    (here : Reached p f m (p.instrs.take pc) reached) (next : p.instrs[pc]? = some i) :
    ∃ v v', reached.Tracks v ∧ p.Accepted v pc i v' := by
  -- The whole program was checked, and what was checked before leads to the same tables.
  obtain ⟨v, known, tracks, _⟩ := here.checked
  obtain ⟨_, w, checked⟩ := Program.checkInstrs_of_validate safe
  obtain ⟨within, rfl⟩ := List.getElem?_eq_some_iff.mp next
  rw [← List.take_append_drop pc p.instrs, Program.checkInstrs_append, known,
    List.drop_eq_getElem_cons within] at checked
  obtain ⟨v', accepted, _⟩ := Program.checkInstrs_cons_ok checked
  rw [List.length_take_of_le (Nat.le_of_lt within), Nat.zero_add] at accepted
  exact ⟨v, v', tracks, accepted⟩

/--
A safe program leaves memory just where an operand wraps around.

Every operand of an instruction that is reached has a buffer, starts in it and lies inside it,
unless its end is out of reach of machine integers. A run on ready memory that can lend its blocks
never blames an operand, and it leads out of memory if and only if it reaches an operand that wraps.
-/
theorem run_faults_iff_wraps {kernels : MachineKernels α}
    (linked : Host.symbols.link = .ok kernels) {memory : Memory}
    (prepared : prepare p memory = .ok f) (ready : m.host.Ready) (unused : m.temps = [])
    (lendable : ∀ i ∈ p.instrs, i.op = .alloc → i.len.toInt ≤ Host.room) :
    (∀ pc reached i, perform kernels f 0 (p.instrs.take pc) (m.withPatience none) = .ok () reached →
      p.instrs[pc]? = some i → ∀ r ∈ i.operands,
        ∃ buffer, f.Bounds reached.temps p.paths r i.len buffer) ∧
    ∃ ended m', (run kernels p memory).outcome m = (ended, m') ∧
      (∀ cause, ended = .error (.error cause) → ¬ cause.OutOfBounds) ∧
      ∀ misuse, ended = .error (.fault misuse) ↔ misuse = .access ∧
        ∃ pc reached i, perform kernels f 0 (p.instrs.take pc) (m.withPatience none) =
            .ok () reached ∧
          p.instrs[pc]? = some i ∧ i.Wraps ∧ ∀ left, m.patience = some left → pc < left := by
  obtain rfl : kernels = Host.kernels := Except.ok.inj (linked.symm.trans Host.link_symbols)
  obtain ⟨safe, covers⟩ := covers_of_prepare prepared
  -- What a machine has performed says what it tracks when it comes to the next instruction.
  have comes {pc : Nat} {reached : Machine α} {i : Instr α}
      (performed : perform Host.kernels f 0 (p.instrs.take pc) (m.withPatience none) =
        .ok () reached) (next : p.instrs[pc]? = some i) :
      ∃ v v', reached.Tracks v ∧ p.Accepted v pc i v' := by
    obtain ⟨within, _⟩ := List.getElem?_eq_some_iff.mp next
    have here := reached_of_perform ready.lent covers safe unused (Nat.le_of_lt within) performed
    exact here.accepted safe next
  constructor
  · intro pc reached i performed next r listed
    obtain ⟨v, v', tracks, accepted⟩ := comes performed next
    exact tracks.bounds covers (accepted.checkOperand listed)
  obtain ⟨pc, reached, ended, here, ends⟩ :=
    exists_endsAt ready.lent covers safe unused m.patience
  -- The run is the one that ends where an instruction ends it, at the limit of its patience.
  obtain ⟨m', _, _, runs⟩ := here.runIn ready.lent ended
  obtain ⟨left, ran⟩ := runs m.patience ends
  rw [run_eq_runIn prepared]
  refine ⟨ended, _, ran, ?_, ?_⟩
  · -- The machine has finished, was canceled or was refused a block, and none blames an operand.
    intro cause failed blamed
    cases ends with
    | finished all patient => simp at failed
    | canceled within called =>
      obtain rfl : RunError.canceled pc = cause := by simpa using failed
      cases blamed
    | @stopped i halt next patient fails why =>
      cases why with
      | refused refusal asks =>
        obtain rfl : RunError.step pc i.text (.alloc refusal) = cause := by
          simpa [Halt.map] using failed
        cases blamed
      | access => simp [Halt.map] at failed
  · intro misuse
    constructor
    · intro faulted
      -- Only an instruction can lead out of memory, and only with an operand that wraps.
      cases ends with
      | finished all patient => simp at faulted
      | canceled within called => simp at faulted
      | @stopped i halt next patient fails why =>
        obtain ⟨v, v', tracks, accepted⟩ := here.accepted safe next
        have member : i ∈ p.instrs := List.mem_of_getElem? next
        rcases tracks.stops_cases covers accepted (lendable i member) fails with
          ⟨wraps, rfl⟩ | ⟨cause, rfl⟩
        · have same : Fault.access = misuse := by simpa [Halt.map] using faulted
          exact ⟨same.symm, pc, reached, i, here.performed, next, wraps, patient⟩
        · simp [Halt.map] at faulted
    · rintro ⟨rfl, pc', reached', i, performed, next, wraps, patient⟩
      obtain ⟨v, v', tracks, accepted⟩ := comes performed next
      -- The run comes to that instruction, and can end nowhere else.
      have stopped := perform_stopped next performed
        (tracks.step_wraps covers accepted wraps) patient
      obtain ⟨_, outcome⟩ := ends.outcome here.performed
      rw [Action.outcome, stopped] at outcome
      exact (congrArg Prod.fst outcome).symm

/-- A program whose only operand ends beyond the largest machine integer. -/
def edgeProgram : Program Float where
  paths := 1
  vars? := none
  seeds? := none
  source := ""
  instrs := [⟨.zero, ⟨.value, 0, 9223372036854775807⟩, .value, 0, 1⟩]
  peak := 0

/-- The operand at the edge is reached by a run that has patience for it. -/
theorem run_faults_iff_wraps_edge :
    prepare edgeProgram ⟨⟨0, 0, 1⟩, ⟨0, 1, 1⟩, .empty⟩ = .ok ⟨⟨0, 0, 1⟩, ⟨0, 1, 1⟩, []⟩ ∧
    ∃ m', (run Host.kernels edgeProgram ⟨⟨0, 0, 1⟩, ⟨0, 1, 1⟩, .empty⟩).outcome sampleMachine =
      (.error (.fault .access), m') := by
  have prepared : prepare edgeProgram ⟨⟨0, 0, 1⟩, ⟨0, 1, 1⟩, .empty⟩ =
      .ok ⟨⟨0, 0, 1⟩, ⟨0, 1, 1⟩, []⟩ := by rfl
  -- The only instruction asks for no block.
  have lendable : ∀ i ∈ edgeProgram.instrs, i.op = .alloc → i.len.toInt ≤ Host.room := by
    simp [edgeProgram]
  refine ⟨prepared, ?_⟩
  obtain ⟨_, ended, m', ran, _, faults⟩ :=
    run_faults_iff_wraps Host.link_symbols prepared sampleMachine_ready rfl lendable
  have wraps : Instr.Wraps (α := Float) ⟨.zero, ⟨.value, 0, 9223372036854775807⟩, .value, 0, 1⟩ :=
    ⟨_, List.mem_singleton.mpr rfl, by unfold Ref.Wraps; decide⟩
  have faulted := (faults .access).mpr ⟨rfl, 0, _, _, rfl, rfl, wraps, by simp [sampleMachine]⟩
  exact ⟨m', by rw [ran, faulted]⟩

/-- The check accepts an operand that does not lie inside its buffer, and the run leaves memory. -/
theorem edge_accepted :
    edgeProgram.validate = .ok () ∧
    (∃ i ∈ edgeProgram.instrs, ∃ r ∈ i.operands,
      ¬ r.offset.toInt + i.len.toInt ≤ edgeProgram.paths.toInt) ∧
    ((run Host.kernels edgeProgram ⟨⟨0, 0, 1⟩, ⟨0, 1, 1⟩, .empty⟩).outcome sampleMachine).1 =
      .error (.fault .access) := by
  -- The sum of offset and length wraps around to a negative number, which is below every size.
  refine ⟨by rfl, ⟨_, List.mem_singleton.mpr rfl, _, List.mem_singleton.mpr rfl, by decide⟩, by rfl⟩

end Machine

end Tangent
