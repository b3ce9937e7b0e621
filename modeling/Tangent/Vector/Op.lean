/-! The vector operations, and the symbols under which their kernels are published. -/

namespace Tangent

/-- The names of the known operations in their usual order. -/
def Op.knownNames : List String := ["alloc", "free", "set", "zero", "copy", "add", "mul", "exp"]

/-- An operation on vectors. A name that is not among the eight known ones is kept as it is. -/
inductive Op where
  | alloc
  | free
  | fill
  | zero
  | copy
  | add
  | mul
  | exp
  | other (name : String) (unknown : name ∉ Op.knownNames)
deriving DecidableEq, Repr

namespace Op

/-- The known operations in their usual order. -/
def known : List Op := [.alloc, .free, .fill, .zero, .copy, .add, .mul, .exp]

/-- The name of an operation. -/
def name : Op → String
  | .alloc => "alloc"
  | .free => "free"
  | .fill => "set"
  | .zero => "zero"
  | .copy => "copy"
  | .add => "add"
  | .mul => "mul"
  | .exp => "exp"
  | .other name _ => name

/-- A name that no known operation has is not among the known names. -/
theorem unknown_of_find? {name : String}
    (none : known.find? (fun op => op.name == name) = none) : name ∉ knownNames := by
  -- The known names are those of the known operations.
  have names : knownNames = known.map Op.name := rfl
  simpa [names] using none

/-- The operation of a name. -/
def ofName (name : String) : Op :=
  match found : known.find? (fun op => op.name == name) with
  | some op => op
  | none => .other name (unknown_of_find? found)

/-- The symbol of an operation's kernel, which is empty for an unknown operation. -/
def symbol : Op → String
  | .alloc => "vMalloc_64f"
  | .free => "vFree"
  | .fill => "vSet_64f"
  | .zero => "vZero_64f"
  | .copy => "vCopy_64f"
  | .add => "vAdd_64f_I"
  | .mul => "vMul_64f_I"
  | .exp => "vExp_64f_I"
  | .other _ _ => ""

/-- The symbols of the known operations. -/
def symbols : List String := known.map symbol

end Op

/-- How often each operation was used. -/
structure Tally where
  counts : List (Op × Nat)
deriving Repr

namespace Tally

/-- No operation was used. -/
def empty : Tally := ⟨[]⟩

instance : Inhabited Tally := ⟨empty⟩

/-- Counts one use more in a list of counts. -/
def bumpIn (op : Op) : List (Op × Nat) → List (Op × Nat)
  | [] => [(op, 1)]
  | (other, n) :: rest =>
    if other = op then (other, n + 1) :: rest else (other, n) :: bumpIn op rest

/-- Counts one use more. -/
def bump (t : Tally) (op : Op) : Tally := ⟨bumpIn op t.counts⟩

/-- The uses of an operation in a list of counts. -/
def countIn (op : Op) : List (Op × Nat) → Nat
  | [] => 0
  | (other, n) :: rest => if other = op then n else countIn op rest

/-- The uses of an operation so far. -/
def count (t : Tally) (op : Op) : Nat := countIn op t.counts

/-- A use counts for its own operation and for no other. -/
theorem countIn_bumpIn (op other : Op) (counts : List (Op × Nat)) :
    countIn other (bumpIn op counts) = countIn other counts + if op = other then 1 else 0 := by
  -- The count is raised where the operation stands first, or a new count of one is put at the end.
  induction counts with
  | nil => by_cases h : op = other <;> simp [bumpIn, countIn, h]
  | cons head rest ih =>
    obtain ⟨first, n⟩ := head
    by_cases same : first = op
    · by_cases h : op = other <;> simp [bumpIn, countIn, same, h]
    · by_cases h : first = other
      · subst h
        simp [bumpIn, countIn, same, Ne.symm same]
      · simp [bumpIn, countIn, same, h, ih]

/-- A use counts for its own operation and for no other. -/
theorem count_bump (t : Tally) (op other : Op) :
    (t.bump op).count other = t.count other + if op = other then 1 else 0 :=
  countIn_bumpIn op other t.counts

/-- Before any use every count is zero. -/
@[simp]
theorem count_empty (op : Op) : empty.count op = 0 := rfl

end Tally

end Tangent
