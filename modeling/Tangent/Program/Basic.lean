import Tangent.Expr.Basic
import Tangent.Vector.Op

/-! Programs: straight lists of vector instructions on registers, variables and temporaries. -/

namespace Tangent

/-- Where an operand lives. A code above those of the four known places is kept as it is. -/
inductive Space where
  | value
  | deriv
  | var
  | temp
  | other (code : UInt8) (above : 3 < code)
deriving DecidableEq, Repr

namespace Space

/-- The space of a code. -/
def ofCode (code : UInt8) : Space :=
  if above : 3 < code then .other code above
  else if code == 0 then .value
  else if code == 1 then .deriv
  else if code == 2 then .var
  else .temp

/-- The code of a space. -/
def code : Space → UInt8
  | .value => 0
  | .deriv => 1
  | .var => 2
  | .temp => 3
  | .other code _ => code

/-- The name of a space. -/
def name : Space → String
  | .value => "value"
  | .deriv => "deriv"
  | .var => "var"
  | .temp => "temp"
  | .other _ _ => "unknown"

/-- A space is the one of its code. -/
@[simp]
theorem ofCode_code (s : Space) : ofCode s.code = s := by
  -- A code of a place that is not known lies above the others.
  cases s with
  | other code above => simp [ofCode, Space.code, above]
  | _ => rfl

end Space

/-- An operand: a buffer and the element of it at which the operand starts. -/
structure Ref where
  space : Space
  /-- Position of a variable, or number of a temporary. -/
  index : Int64
  offset : Int64
deriving DecidableEq, Repr

namespace Ref

/-- The register of values. -/
def value : Ref := ⟨.value, 0, 0⟩

/-- The register of derivatives. -/
def deriv : Ref := ⟨.deriv, 0, 0⟩

/-- A variable. -/
def var (index : Int64) : Ref := ⟨.var, index, 0⟩

instance : Inhabited Ref := ⟨value⟩

/-- The buffer of an operand, without its offset. -/
def baseText (r : Ref) : String :=
  match r.space with
  | .value => "%value"
  | .deriv => "%deriv"
  | .var => s!"%v{r.index}"
  | .temp => s!"%t{r.index}"
  | .other _ _ => "%?"

/-- The written form of an operand. -/
def text (r : Ref) : String :=
  if r.offset == 0 then r.baseText else s!"{r.baseText}+{r.offset}"

end Ref

/-- One instruction. Which of the fields matter depends on the operation. -/
structure Instr (α : Type) where
  op : Op
  dst : Ref
  src : Ref
  scalar : α
  len : Int64

/-- The written form of an instruction. -/
def Instr.text {α : Type} [Written α] (i : Instr α) : String :=
  match i.op with
  | .alloc => s!"{i.dst.text} = alloc {i.len}"
  | .free => s!"free {i.dst.text}"
  | .fill => s!"set {i.dst.text}, {Written.write i.scalar}, {i.len}"
  | .zero => s!"zero {i.dst.text}, {i.len}"
  | .exp => s!"exp {i.dst.text}, {i.len}"
  | op => s!"{op.name} {i.src.text}, {i.dst.text}, {i.len}"

/--
A program with everything that running and saving it needs.

The lists of variables and seeds are absent, rather than empty, when none was ever declared: a
saved program tells the two apart.
-/
structure Program (α : Type) where
  paths : Int64
  vars? : Option (List String)
  seeds? : Option (List α)
  source : String
  instrs : List (Instr α)
  /-- The most elements of temporaries that are live at once. -/
  peak : Int64

namespace Program

variable {α : Type}

/-- The variables by position. -/
def vars (p : Program α) : List String := p.vars?.getD []

/-- The seeds by position of their variable. -/
def seeds (p : Program α) : List α := p.seeds?.getD []

/-- How many instructions use an operation. -/
def count (p : Program α) (op : Op) : Nat :=
  p.instrs.countP (fun i => decide (i.op = op))

/-- The line of a listing that describes a variable, with `none` for a seed that is missing. -/
def varLine [Written α] (zero : α) (index : Nat) (name : String) (seed? : Option α) : String :=
  s!"; {(Ref.var (Int64.ofNat index)).text} = {name} seed={Written.write (seed?.getD zero)}\n"

/-- The lines of a listing that describe the variables from a position on. -/
def varLines [Written α] (zero : α) (seeds : List α) (index : Nat) : List String → String
  | [] => ""
  | name :: rest =>
    varLine zero index name seeds[index]? ++ varLines zero seeds (index + 1) rest

/-- The listing of a program: what it is for, then one instruction a line. -/
def listing [Written α] (zero : α) (p : Program α) : String :=
  s!"; paths={p.paths} temps.peak={p.peak} instrs={p.instrs.length}\n" ++
    (if p.source == "" then "" else s!"; source: {p.source}\n") ++
    varLines zero p.seeds 0 p.vars ++
    String.join (p.instrs.map (fun i => s!"  {i.text}\n"))

end Program

end Tangent
