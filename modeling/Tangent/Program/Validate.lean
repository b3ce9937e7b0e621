import Tangent.Program.Basic
import Tangent.Text.Quoted
import Tangent.Vector.Backend

/-! Which programs are safe to run. -/

namespace Tangent

/-- What is wrong with a program, and at which instruction. -/
inductive ProgramError where
  | paths (count : Int64)
  | variableRange (pc : Nat) (index : Int64)
  | notLive (pc : Nat) (operand : Ref)
  | unknownSpace (pc : Nat) (code : UInt8)
  | outside (pc : Nat) (operand : Ref) (len size : Int64)
  | badAlloc (pc : Nat) (instr : String)
  | allocatedTwice (pc : Nat) (index : Int64)
  | badFree (pc : Nat) (instr : String)
  | doubleFree (pc : Nat)
  | unknownOp (pc : Nat) (name : String)
  | neverFreed (count : Nat)
  /-- A recorder was closed with temporaries that nobody gave back. -/
  | stillLive (count : Nat)
  /-- A saved program lists more or fewer seeds than variables. -/
  | seedCount (seeds vars : Nat)
  | pathLimit (count limit : Int64)
  | liveLimit (pc : Nat) (live limit : Int64)
deriving DecidableEq, Repr

/-- What follows the common opening in the message of a program error. -/
def ProgramError.detail : ProgramError → String
  | .paths count => s!"paths {count}"
  | .variableRange pc index => s!"instr {pc}: variable index {index} out of range"
  | .notLive pc operand => s!"instr {pc}: {operand.text} used while not live"
  | .unknownSpace pc code => s!"instr {pc}: unknown space {code}"
  | .outside pc operand len size =>
    s!"instr {pc}: {operand.text} with length {len} exceeds {size} elements"
  | .badAlloc pc instr => s!"instr {pc}: bad alloc {instr}"
  | .allocatedTwice pc index => s!"instr {pc}: temp {index} allocated twice"
  | .badFree pc instr => s!"instr {pc}: bad free {instr}"
  | .doubleFree pc => s!"instr {pc}: {doubleFreeText}"
  | .unknownOp pc name => s!"instr {pc}: unknown op " ++ Text.quote name
  | .neverFreed count => s!"{count} temp(s) never freed"
  | .stillLive count => s!"{count} temp(s) still live"
  | .seedCount seeds vars => s!"{seeds} seeds for {vars} variables"
  | .pathLimit count limit => s!"{count} paths exceeds limit {limit}"
  | .liveLimit pc live limit => s!"instr {pc}: {live} live temp elements exceeds limit {limit}"

/-- The message of a program error. -/
def ProgramError.message (e : ProgramError) : String :=
  "invalid program: " ++ e.detail

/-- Numbers of temporaries with what is known of each. -/
abbrev TempTable (ν : Type) := List (Int64 × ν)

namespace TempTable

variable {ν : Type}

/-- What is known of a temporary. -/
def find? (table : TempTable ν) (index : Int64) : Option ν :=
  (List.find? (fun entry => entry.1 == index) table).map (·.2)

/-- Adds a temporary, over what was known of it. -/
def insert (table : TempTable ν) (index : Int64) (known : ν) : TempTable ν :=
  (index, known) :: List.filter (fun entry => entry.1 != index) table

/-- Forgets a temporary. -/
def erase (table : TempTable ν) (index : Int64) : TempTable ν :=
  List.filter (fun entry => entry.1 != index) table

end TempTable

/-- What is known between two instructions: the live temporaries, and all there ever were. -/
structure Validation where
  live : TempTable Int64
  seen : TempTable Unit

namespace Program

variable {α : Type}

/-- The size of the buffer behind an operand. -/
def operandSize (p : Program α) (v : Validation) (pc : Nat) (r : Ref) :
    Except ProgramError Int64 :=
  match r.space with
  | .value => .ok p.paths
  | .deriv => .ok p.paths
  | .var =>
    if r.index < 0 || r.index.toInt ≥ p.vars.length then .error (.variableRange pc r.index)
    else .ok p.paths
  | .temp =>
    match v.live.find? r.index with
    | some size => .ok size
    | none => .error (.notLive pc r)
  | .other code _ => .error (.unknownSpace pc code)

/-- Accepts an operand of which `n` elements lie inside its buffer. -/
def checkOperand (p : Program α) (v : Validation) (pc : Nat) (r : Ref) (n : Int64) :
    Except ProgramError Unit := do
  let size ← p.operandSize v pc r
  -- The end of the operand is a machine integer, and may wrap around to before the start.
  if r.offset < 0 || n < 0 || r.offset + n > size then .error (.outside pc r n size)
  else .ok ()

/-- Accepts an instruction whose source and destination both lie inside their buffers. -/
def checkPair (p : Program α) (v : Validation) (pc : Nat) (i : Instr α) :
    Except ProgramError Unit := do
  -- If both lie outside, it is the source that is reported.
  p.checkOperand v pc i.src i.len
  p.checkOperand v pc i.dst i.len

/-- Accepts an instruction, with what is known after it. -/
def checkInstr [Written α] (p : Program α) (v : Validation) (pc : Nat) (i : Instr α) :
    Except ProgramError Validation :=
  match i.op with
  | .alloc =>
    if i.dst.space ≠ .temp || i.dst.offset ≠ 0 || i.len ≤ 0 then .error (.badAlloc pc i.text)
    -- A number counts as used even after its temporary was given back.
    else if (v.seen.find? i.dst.index).isSome then .error (.allocatedTwice pc i.dst.index)
    else .ok ⟨v.live.insert i.dst.index i.len, v.seen.insert i.dst.index ()⟩
  | .free =>
    if i.dst.space ≠ .temp || i.dst.offset ≠ 0 then .error (.badFree pc i.text)
    else if (v.live.find? i.dst.index).isNone then .error (.doubleFree pc)
    else .ok ⟨v.live.erase i.dst.index, v.seen⟩
  | .fill => (p.checkOperand v pc i.dst i.len).map (fun _ => v)
  | .zero => (p.checkOperand v pc i.dst i.len).map (fun _ => v)
  | .exp => (p.checkOperand v pc i.dst i.len).map (fun _ => v)
  | .copy => (p.checkPair v pc i).map (fun _ => v)
  | .add => (p.checkPair v pc i).map (fun _ => v)
  | .mul => (p.checkPair v pc i).map (fun _ => v)
  | .other name _ => .error (.unknownOp pc name)

/-- Accepts instructions from a position on, with what is known after them. -/
def checkInstrs [Written α] (p : Program α) (v : Validation) (pc : Nat) :
    List (Instr α) → Except ProgramError Validation
  | [] => .ok v
  | i :: rest => do
    let v ← p.checkInstr v pc i
    p.checkInstrs v (pc + 1) rest

/-- Accepts a program that is safe to run, or reports its first fault. -/
def validate [Written α] (p : Program α) : Except ProgramError Unit := do
  if p.paths ≤ 0 then throw (.paths p.paths)
  let v ← p.checkInstrs ⟨[], []⟩ 0 p.instrs
  if v.live.isEmpty then return () else throw (.neverFreed v.live.length)

end Program

end Tangent
