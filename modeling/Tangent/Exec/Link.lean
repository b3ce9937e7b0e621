import Tangent.NameMap
import Tangent.Vector.Host

/-! Tables of kernels under their symbols, and the choice of one kernel for each operation. -/

namespace Tangent

/-- The declared types of a kernel that works on one buffer. -/
inductive UnaryType where
  | plain
  | zeroFunc
  | unaryFunc
deriving DecidableEq, Repr

/-- The declared types of a kernel that works on a source and a destination. -/
inductive BinaryType where
  | plain
  | copyFunc
  | binaryFunc
deriving DecidableEq, Repr

/-- What a table holds under a symbol: a kernel of some declared type, or something else. -/
inductive Symbol (σ ε α β : Type) where
  | absent
  | alloc (named : Bool) (kernel : Int64 → Action σ ε (Except AllocError β))
  | free (named : Bool) (kernel : β → Action σ ε Unit)
  | fill (named : Bool) (kernel : α → β → Int64 → Action σ ε Unit)
  | unary (type : UnaryType) (kernel : β → Int64 → Action σ ε Unit)
  | binary (type : BinaryType) (kernel : β → β → Int64 → Action σ ε Unit)
  | other (type : String)

/-- The name of the type of what a table holds. -/
def Symbol.typeName {σ ε α β : Type} : Symbol σ ε α β → String
  | .absent => "<nil>"
  | .alloc true _ => "vector.AllocFunc"
  | .alloc false _ => "func(int) ([]float64, error)"
  | .free true _ => "vector.FreeFunc"
  | .free false _ => "func([]float64)"
  | .fill true _ => "vector.SetFunc"
  | .fill false _ => "func(float64, []float64, int)"
  | .unary .plain _ => "func([]float64, int)"
  | .unary .zeroFunc _ => "vector.ZeroFunc"
  | .unary .unaryFunc _ => "vector.UnaryFunc"
  | .binary .plain _ => "func([]float64, []float64, int)"
  | .binary .copyFunc _ => "vector.CopyFunc"
  | .binary .binaryFunc _ => "vector.BinaryFunc"
  | .other type => type

/-- A table of kernels under their symbols. -/
abbrev SymbolTable (σ ε α β : Type) := NameMap (Symbol σ ε α β)

/-- One kernel for each operation. -/
structure Kernels (σ ε α β : Type) where
  alloc : Int64 → Action σ ε (Except AllocError β)
  free : β → Action σ ε Unit
  fill : α → β → Int64 → Action σ ε Unit
  zero : β → Int64 → Action σ ε Unit
  copy : β → β → Int64 → Action σ ε Unit
  add : β → β → Int64 → Action σ ε Unit
  mul : β → β → Int64 → Action σ ε Unit
  exp : β → Int64 → Action σ ε Unit

/-- A symbol for which a table holds no fitting kernel. -/
inductive Unresolved where
  | missing (symbol : String)
  | incompatible (symbol type : String)
deriving DecidableEq, Repr

/-- The line about a symbol that could not be resolved. -/
def Unresolved.line : Unresolved → String
  | .missing symbol => s!"unresolved symbol: {symbol}"
  | .incompatible symbol type => s!"unresolved symbol: {symbol} has incompatible type {type}"

/-- Every symbol that could not be resolved, in the order of the operations. -/
structure LinkError where
  unresolved : List Unresolved
deriving DecidableEq, Repr

/-- The message of a link error, one line a symbol. -/
def LinkError.message (e : LinkError) : String :=
  "link: " ++ "\n".intercalate (e.unresolved.map Unresolved.line)

namespace SymbolTable

variable {σ ε α β κ : Type}

/-- What a table holds for an operation, if it is a kernel that fits. -/
def fitting (table : SymbolTable σ ε α β) (op : Op) (fits : Symbol σ ε α β → Option κ) :
    Except Unresolved κ :=
  match table.find? op.symbol with
  | none => .error (.missing op.symbol)
  | some .absent => .error (.missing op.symbol)
  | some symbol =>
    match fits symbol with
    | some kernel => .ok kernel
    | none => .error (.incompatible op.symbol symbol.typeName)

/-- A kernel that lends blocks. -/
def asAlloc : Symbol σ ε α β → Option (Int64 → Action σ ε (Except AllocError β))
  | .alloc _ kernel => some kernel
  | _ => none

/-- A kernel that takes blocks back. -/
def asFree : Symbol σ ε α β → Option (β → Action σ ε Unit)
  | .free _ kernel => some kernel
  | _ => none

/-- A kernel that writes a constant. -/
def asFill : Symbol σ ε α β → Option (α → β → Int64 → Action σ ε Unit)
  | .fill _ kernel => some kernel
  | _ => none

/-- A kernel on one buffer, whatever the name of its type. -/
def asUnary : Symbol σ ε α β → Option (β → Int64 → Action σ ε Unit)
  | .unary _ kernel => some kernel
  | _ => none

/-- A kernel on a source and a destination, whatever the name of its type. -/
def asBinary : Symbol σ ε α β → Option (β → β → Int64 → Action σ ε Unit)
  | .binary _ kernel => some kernel
  | _ => none

/-- What went wrong with one symbol, if anything did. -/
def problem? : Except Unresolved κ → Option Unresolved
  | .ok _ => none
  | .error cause => some cause

/-- Chooses a kernel for each operation, or reports every symbol that has none. -/
def link (table : SymbolTable σ ε α β) : Except LinkError (Kernels σ ε α β) :=
  let alloc := table.fitting .alloc asAlloc
  let free := table.fitting .free asFree
  let fill := table.fitting .fill asFill
  let zero := table.fitting .zero asUnary
  let copy := table.fitting .copy asBinary
  let add := table.fitting .add asBinary
  let mul := table.fitting .mul asBinary
  let exp := table.fitting .exp asUnary
  match alloc, free, fill, zero, copy, add, mul, exp with
  | .ok alloc, .ok free, .ok fill, .ok zero, .ok copy, .ok add, .ok mul, .ok exp =>
    .ok { alloc, free, fill, zero, copy, add, mul, exp }
  -- All symbols are looked at before the first failure is told.
  | _, _, _, _, _, _, _, _ =>
    .error ⟨[problem? alloc, problem? free, problem? fill, problem? zero, problem? copy,
      problem? add, problem? mul, problem? exp].filterMap id⟩

end SymbolTable

/-- The kernels of memory under their symbols. -/
def Host.symbols {ε α : Type} [Elem α] : SymbolTable (Host α) ε α View :=
  .ofList
    [(Op.alloc.symbol, .alloc true Host.alloc),
     (Op.free.symbol, .free true Host.free),
     (Op.fill.symbol, .fill true (fun value dst n => Host.fill dst value n)),
     (Op.zero.symbol, .unary .zeroFunc Host.zero),
     (Op.copy.symbol, .binary .copyFunc Host.copy),
     (Op.add.symbol, .binary .binaryFunc Host.add),
     (Op.mul.symbol, .binary .binaryFunc Host.mul),
     (Op.exp.symbol, .unary .unaryFunc Host.exp)]

end Tangent
