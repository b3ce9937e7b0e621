import Tangent.Exec.Link
import Tangent.Metrics.Meter
import Tangent.Program.Recorder

/-! Running a program on memory. -/

namespace Tangent

/-- The buffers a program runs on. -/
structure Memory where
  value : View
  deriv : View
  vars : NameMap View

/-- Why one instruction failed. -/
inductive StepError where
  | alloc (cause : AllocError)
  | notLive (operand : Ref)
  | unknownSpace (name : String)
  | outside (operand : Ref) (len : Int64) (size : Nat)
  | unknownOp (name : String)
deriving DecidableEq, Repr

/-- The wording shared by all messages about an operand outside its buffer. -/
def outOfBoundsText : String := "buffer access out of bounds"

/-- The message of a failed instruction. -/
def StepError.message : StepError → String
  | .alloc cause => cause.message
  | .notLive operand => s!"{outOfBoundsText}: {operand.text} is not live"
  | .unknownSpace name => s!"{outOfBoundsText}: unknown space {name}"
  | .outside operand len size =>
    s!"{outOfBoundsText}: {operand.text} length {len} in {size}-element buffer"
  | .unknownOp name => "invalid program: unknown op " ++ Text.quote name

/-- Why a run ended early. -/
inductive RunError where
  | invalid (cause : ProgramError)
  | registers (value deriv : Nat) (need : Int64)
  | noData (name : String)
  | shortData (name : String) (length : Nat) (need : Int64)
  | canceled (pc : Nat)
  | step (pc : Nat) (instr : String) (cause : StepError)
deriving DecidableEq, Repr

/-- The wording shared by all messages about memory that does not fit. -/
def memoryMismatchText : String := "memory does not match program"

/-- The message of a run error. -/
def RunError.message : RunError → String
  | .invalid cause => cause.message
  | .registers value deriv need =>
    s!"{memoryMismatchText}: registers have {value}/{deriv} elements, program needs {need}"
  | .noData name => s!"{memoryMismatchText}: no data for variable " ++ Text.quote name
  | .shortData name length need =>
    s!"{memoryMismatchText}: variable " ++ Text.quote name ++
      s!" has {length} elements, program needs {need}"
  | .canceled pc => s!"instr {pc}: context canceled"
  | .step pc instr cause => s!"instr {pc} ({instr}): {cause.message}"

/-- A machine that runs programs: memory, measurements and the temporaries of the run. -/
structure Machine (α : Type) where
  host : Host α
  meter : Meter
  /-- How often the run may go on when it asks; absent means it is never called off. -/
  patience : Option Nat
  temps : TempTable View

/-- The kernels a program runs on. -/
abbrev MachineKernels (α : Type) := Kernels (Host α) StepError α View

/-- Where the operands of a running program are found. -/
structure Frame where
  value : View
  deriv : View
  vars : List View

/-- Finds the data of variables, each of which has to cover all paths. -/
def Frame.bindVars (paths : Int64) (data : NameMap View) :
    List String → Except RunError (List View)
  | [] => .ok []
  | name :: rest =>
    match data.find? name with
    | none => .error (.noData name)
    | some view =>
      if (view.length : Int) < paths.toInt then .error (.shortData name view.length paths)
      else (Frame.bindVars paths data rest).map (view :: ·)

/-- The frame of a program on memory whose buffers cover all paths. -/
def Frame.bind {α : Type} (p : Program α) (memory : Memory) : Except RunError Frame :=
  if (memory.value.length : Int) < p.paths.toInt || (memory.deriv.length : Int) < p.paths.toInt
  then .error (.registers memory.value.length memory.deriv.length p.paths)
  else (Frame.bindVars p.paths memory.vars p.vars).map (⟨memory.value, memory.deriv, ·⟩)

namespace Machine

variable {α τ : Type}

/-- A machine before its first run. -/
def new (host : Host α) (patience : Option Nat) : Machine α := ⟨host, .new, patience, []⟩

/-- Runs a kernel. -/
def onHost (kernel : Action (Host α) StepError τ) : Action (Machine α) StepError τ :=
  Action.focus Machine.host (fun host m => { m with host }) kernel

/-- Changes the measurements. -/
def measure (f : Meter → Meter) : Action (Machine α) StepError Unit :=
  modify fun m => { m with meter := f m.meter }

/-- The buffer behind an operand. -/
def bufferOf (f : Frame) (r : Ref) : Action (Machine α) StepError View := do
  match r.space with
  | .value => return f.value
  | .deriv => return f.deriv
  | .var =>
    -- The check lets no such position through, so to come here with one is a misuse.
    match if r.index < 0 then none else f.vars[r.index.toNatClampNeg]? with
    | some view => return view
    | none => Action.access
  | .temp =>
    match (← get).temps.find? r.index with
    | some view => return view
    | none => Action.fail (.notLive r)
  | .other code above => Action.fail (.unknownSpace (Space.other code above).name)

/-- The `n` elements of an operand. -/
def resolve (f : Frame) (r : Ref) (n : Int64) : Action (Machine α) StepError View := do
  let buffer ← bufferOf f r
  let last := r.offset + n
  if r.offset < 0 || last.toInt > buffer.length then
    Action.fail (.outside r n buffer.length)
  -- The end can wrap around to before the start, which no buffer can follow.
  if last < r.offset then Action.access
  return (buffer.drop r.offset.toNatClampNeg).take n.toNatClampNeg

/-- Performs an operation on one operand. -/
def onOne (f : Frame) (i : Instr α) (kernel : View → Action (Host α) StepError Unit) :
    Action (Machine α) StepError Unit := do
  let dst ← resolve f i.dst i.len
  onHost (kernel dst)
  measure (·.kernel i.op)

/-- Performs an operation on a source and a destination, of which the latter is found first. -/
def onTwo (f : Frame) (i : Instr α)
    (kernel : View → View → Int64 → Action (Host α) StepError Unit) :
    Action (Machine α) StepError Unit := do
  let dst ← resolve f i.dst i.len
  let src ← resolve f i.src i.len
  onHost (kernel src dst i.len)
  measure (·.kernel i.op)

/-- Begins a temporary. -/
def beginTemp (k : MachineKernels α) (index len : Int64) :
    Action (Machine α) StepError Unit := do
  match ← onHost (k.alloc len) with
  | .error cause => Action.fail (.alloc cause)
  | .ok view =>
    measure fun m => (m.kernel .alloc).alloc len.toInt
    modify fun m => { m with temps := m.temps.insert index view }

/-- Ends a temporary. -/
def endTemp (k : MachineKernels α) (index : Int64) : Action (Machine α) StepError Unit := do
  -- An unknown temporary stands for a buffer without elements, which memory refuses to take.
  let view := ((← get).temps.find? index).getD .empty
  modify fun m => { m with temps := m.temps.erase index }
  onHost (k.free view)
  measure fun m => (m.kernel .free).release view.length

/-- Performs one instruction. -/
def step (k : MachineKernels α) (f : Frame) (i : Instr α) : Action (Machine α) StepError Unit :=
  match i.op with
  | .alloc => beginTemp k i.dst.index i.len
  | .free => endTemp k i.dst.index
  | .fill => onOne f i (fun dst => k.fill i.scalar dst i.len)
  | .zero => onOne f i (fun dst => k.zero dst i.len)
  | .exp => onOne f i (fun dst => k.exp dst i.len)
  | .copy => onTwo f i k.copy
  | .add => onTwo f i k.add
  | .mul => onTwo f i k.mul
  | .other name _ => do
    let _ ← resolve f i.dst i.len
    Action.fail (.unknownOp name)

/-- Asks whether the run may go on. -/
def poll (pc : Nat) : Action (Machine α) RunError Unit := do
  match (← get).patience with
  | none => return ()
  | some 0 => Action.fail (.canceled pc)
  | some (left + 1) => modify fun m => { m with patience := some left }

/-- Performs instructions from a position on. -/
def perform [Written α] (k : MachineKernels α) (f : Frame) (pc : Nat) :
    List (Instr α) → Action (Machine α) RunError Unit
  | [] => pure ()
  | i :: rest => do
    -- A run can be called off before each instruction, never within one.
    poll pc
    (step k f i).adapt (.step pc i.text)
    perform k f (pc + 1) rest

/-- Measures that a run ended. Only an error makes it a failed run. -/
def counted (body : Action (Machine α) RunError Unit) : Action (Machine α) RunError Unit := fun m =>
  match body m with
  | .ok () m => .ok () { m with meter := m.meter.run true }
  | .error (.error cause) m => .error (.error cause) { m with meter := m.meter.run false }
  -- A misuse is no error of the program, so the run counts as one that went well.
  | .error (.fault misuse) m => .error (.fault misuse) { m with meter := m.meter.run true }

/-- Gives back temporaries and forgets them. -/
def releaseEach (k : MachineKernels α) : List (Int64 × View) → Action (Machine α) StepError Unit
  | [] => pure ()
  | (index, view) :: rest => do
    onHost (k.free view)
    measure (·.release view.length)
    modify fun m => { m with temps := m.temps.erase index }
    releaseEach k rest

/-- Gives back every temporary of the run. -/
def releaseAll (k : MachineKernels α) : Action (Machine α) StepError Unit := do
  releaseEach k (← get).temps

/-- Runs the instructions of a program in its frame, and leaves no temporary behind. -/
def runIn [Written α] (k : MachineKernels α) (p : Program α) (f : Frame) :
    Action (Machine α) RunError Unit :=
  -- However the instructions end, the temporaries are given back after the run was counted.
  (counted (perform k f 0 p.instrs)).closing ((releaseAll k).adapt (.step p.instrs.length ""))

/-- The frame of a safe program on fitting memory. -/
def prepare [Written α] (p : Program α) (memory : Memory) : Except RunError Frame := do
  p.validate.mapError RunError.invalid
  Frame.bind p memory

/-- Runs a program on memory. -/
def run [Written α] (k : MachineKernels α) (p : Program α) (memory : Memory) :
    Action (Machine α) RunError Unit := do
  let frame ← Action.ofExcept (prepare p memory)
  runIn k p frame

end Machine

/-- Why an expression was not compiled, linked and run. -/
inductive ExprRunError where
  | compile (cause : CompileError)
  | link (cause : LinkError)
  | run (cause : RunError)
deriving DecidableEq, Repr

/-- The message of such an error. -/
def ExprRunError.message : ExprRunError → String
  | .compile cause => cause.message
  | .link cause => cause.message
  | .run cause => cause.message

/-- Compiles an expression for as many paths as the register of values has, and runs it. -/
def runExpr {α : Type} [Elem α] [Written α] (root : Expr α) (seeds : NameMap α)
    (table : SymbolTable (Host α) StepError α View) (memory : Memory) :
    Action (Machine α) ExprRunError Unit := do
  -- The recording has no limit of its own, since memory has one.
  match Program.compile root (Int64.ofNat memory.value.length) seeds 0 with
  | .error halt => throw (halt.map .compile)
  | .ok program =>
    let kernels ← Action.ofExcept (table.link.mapError .link)
    (Machine.run kernels program memory).adapt .run

end Tangent
