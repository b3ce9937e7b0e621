import Tangent.Program.Validate
import Tangent.Walk

/-! A backend that computes nothing and writes down what it is asked to do. -/

namespace Tangent

/-- Two operands name the same storage when they are equal. -/
instance : Handle Ref where
  same a b := decide (a = b)

/-- A program in the making. -/
structure Recorder (α : Type) where
  paths : Int64
  /-- Variables with their seeds, the latest first. -/
  declared : List (String × α)
  /-- Instructions, the latest first. -/
  recorded : List (Instr α)
  nextTemp : Int64
  live : TempTable Int64
  liveElements : Int64
  peakElements : Int64
  /-- The most elements that may be live; zero or less means no limit. -/
  limit : Int64

namespace Recorder

variable {ε α : Type}

/-- A program without variables and instructions. -/
def new (paths limit : Int64) : Recorder α :=
  { paths, declared := [], recorded := [], nextTemp := 0, live := [], liveElements := 0,
    peakElements := 0, limit }

/-- Declares a variable and gives the operand that stands for it. -/
def declare (name : String) (seed : α) : Action (Recorder α) ε Ref := do
  let r ← get
  set { r with declared := (name, seed) :: r.declared }
  return .var (Int64.ofNat r.declared.length)

/-- Writes an instruction down. -/
def emit (i : Instr α) : Action (Recorder α) ε Unit :=
  modify fun r => { r with recorded := i :: r.recorded }

/-- Numbers a new temporary. -/
def alloc [Elem α] (n : Int64) : Action (Recorder α) ε (Except AllocError Ref) := do
  -- A refusal is an answer, which leaves the program in the making as it is.
  if n ≤ 0 then return .error (.size n)
  let r ← get
  if r.limit > 0 && r.liveElements + n > r.limit then
    return .error (.recordLimit n r.liveElements r.limit)
  -- Numbers are not used again, so a use after the end can be told from a use of a later one.
  let ref : Ref := ⟨.temp, r.nextTemp, 0⟩
  set { r with
    nextTemp := r.nextTemp + 1
    live := r.live.insert ref.index n
    liveElements := r.liveElements + n
    peakElements := max r.peakElements (r.liveElements + n) }
  emit ⟨.alloc, ref, .value, Elem.zero, n⟩
  return .ok ref

/-- Ends a temporary, which has to be live and given from its first element. -/
def free [Elem α] (ref : Ref) : Action (Recorder α) ε Unit := do
  if ref.space ≠ .temp || ref.offset ≠ 0 then
    Action.panic s!"free: {doubleFreeText}: {ref.text} is not an allocation"
  let r ← get
  match r.live.find? ref.index with
  | none => Action.panic s!"free: {doubleFreeText}: {ref.text}"
  | some n =>
    set { r with live := r.live.erase ref.index, liveElements := r.liveElements - n }
    emit ⟨.free, ref, .value, Elem.zero, 0⟩

/-- Stops at a temporary that is not live. -/
def use (ref : Ref) : Action (Recorder α) ε Unit := do
  let r ← get
  -- Registers and variables are always there; only a temporary can be gone.
  if ref.space = .temp && (r.live.find? ref.index).isNone then
    Action.panic s!"program: use of temp {ref.text} after free"

/-- Writes down an operation on one operand. -/
def unary (op : Op) (dst : Ref) (scalar : α) (n : Int64) : Action (Recorder α) ε Unit := do
  use dst
  emit ⟨op, dst, .value, scalar, n⟩

/-- Writes down an operation on a source and a destination. -/
def binary [Elem α] (op : Op) (src dst : Ref) (n : Int64) : Action (Recorder α) ε Unit := do
  use src
  use dst
  emit ⟨op, dst, src, Elem.zero, n⟩

/-- The operations of a recorder as a backend. -/
def backend [Elem α] : Backend (Recorder α) ε α Ref where
  alloc := alloc
  free := free
  offset ref off := pure { ref with offset := ref.offset + off }
  fill dst value n := unary .fill dst value n
  zero dst n := unary .zero dst Elem.zero n
  copy src dst n := binary .copy src dst n
  add src dst n := binary .add src dst n
  mul src dst n := binary .mul src dst n
  exp dst n := unary .exp dst Elem.zero n

/-- A list that is absent when it is empty. -/
def listed {ν : Type} (items : List ν) : Option (List ν) :=
  if items.isEmpty then none else some items

/-- The recorded program, once every temporary is given back. -/
def build (r : Recorder α) : Except ProgramError (Program α) :=
  if r.live.isEmpty then
    .ok
      { paths := r.paths
        vars? := listed (r.declared.reverse.map (·.1))
        seeds? := listed (r.declared.reverse.map (·.2))
        source := ""
        instrs := r.recorded.reverse
        peak := r.peakElements }
  else .error (.stillLive r.live.length)

end Recorder

/-- Why an expression did not become a program. -/
inductive CompileError where
  | walk (cause : WalkError)
  | build (cause : ProgramError)
deriving DecidableEq, Repr

/-- The message of a compilation error. -/
def CompileError.message : CompileError → String
  | .walk cause => "compile: " ++ cause.message
  | .build cause => cause.message

namespace Program

variable {α : Type}

/-- Declares variables in order and binds them in a context. -/
def declareAll (c : Context α Ref) :
    List (String × α) → Action (Recorder α) CompileError (Context α Ref)
  | [] => pure c
  | (name, seed) :: rest => do
    let ref ← Recorder.declare name seed
    declareAll (c.bind name ref seed) rest

/-- Records the walk over a tree. -/
def record [Elem α] (root : Expr α) (paths : Int64) (seeds : NameMap α) :
    Action (Recorder α) CompileError Unit := do
  let c ← declareAll (Context.new paths .value .deriv) seeds.entries
  (Walk.generate Recorder.backend c root).adapt .walk

/-- The program of a tree, for a number of paths, seeds and a limit on temporaries. -/
def compile [Elem α] [Written α] (root : Expr α) (paths : Int64) (seeds : NameMap α)
    (limit : Int64) : Except (Halt CompileError) (Program α) := do
  let (ended, recorder) := (record root paths seeds).outcome (Recorder.new paths limit)
  ended
  let program ← recorder.build.mapError (fun cause => .error (.build cause))
  -- The written form is wanted last, so that a faulty tree is reported by the walk.
  let source ← root.write.mapError .fault
  return { program with source }

end Program

end Tangent
