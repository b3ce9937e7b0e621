import Tangent.Proofs.Action
import Tangent.Proofs.Count
import Tangent.Vector.Backend

/-! Operations of a backend by kind, and stretches that lie inside their block. -/

namespace Tangent

/-- An operation on one buffer. -/
inductive Unary (α : Type) where
  | fill (value : α)
  | zero
  | exp

/-- An operation on a source and a destination. -/
inductive Binary where
  | copy
  | add
  | mul

/-- The operation under its usual name. -/
def Unary.op {α : Type} : Unary α → Op
  | .fill _ => .fill
  | .zero => .zero
  | .exp => .exp

/-- The operation under its usual name. -/
def Binary.op : Binary → Op
  | .copy => .copy
  | .add => .add
  | .mul => .mul

/-- No operation on one buffer borrows or returns a block. -/
theorem Unary.op_ne {α : Type} (op : Unary α) : op.op ≠ .alloc ∧ op.op ≠ .free := by
  -- Filling, clearing and the exponential have names of their own.
  cases op <;> simp [Unary.op]

/-- No operation on two buffers borrows or returns a block. -/
theorem Binary.op_ne (op : Binary) : op.op ≠ .alloc ∧ op.op ≠ .free := by
  -- Copying, adding and multiplying have names of their own.
  cases op <;> simp [Binary.op]

namespace Backend

variable {σ ε α β : Type}

/-- Performs an operation on one buffer. -/
def one (be : Backend σ ε α β) : Unary α → β → Int64 → Action σ ε Unit
  | .fill value => fun dst n => be.fill dst value n
  | .zero => be.zero
  | .exp => be.exp

/-- Performs an operation on a source and a destination. -/
def two (be : Backend σ ε α β) : Binary → β → β → Int64 → Action σ ε Unit
  | .copy => be.copy
  | .add => be.add
  | .mul => be.mul

/-- Writing a constant is filling or clearing. -/
theorem set_eq_one [Elem α] (be : Backend σ ε α β) (dst : β) (value : α) (n : Int64) :
    be.set dst value n = be.one (if Elem.isZero value then .zero else .fill value) dst n := by
  -- The test for zero picks the operation on both sides.
  unfold set
  split
  · rfl
  · rfl

/-- A stretch that lies inside its block is an offset of the block. -/
theorem slot_inside (be : Backend σ ε α β) (buffer : β) {i n m : Nat} (nonempty : 0 < n)
    (inside : (i + 1) * n ≤ m) (bounded : m < 2 ^ 63) :
    be.slot ⟨buffer, Int64.ofNat m, false⟩ (Int64.ofNat i) (Int64.ofNat n) =
      be.offset buffer (Int64.ofNat (i * n)) := by
  -- All numbers stay below the size of the block, so none of them wraps around.
  have index : i ≤ i * n := Nat.le_mul_of_pos_right i nonempty
  have whole : (i + 1) * n = i * n + n := Nat.succ_mul i n
  have next : (Int64.ofNat i + 1) * Int64.ofNat n = Int64.ofNat ((i + 1) * n) := by
    rw [Int64.ofNat_mul, Int64.ofNat_add]
    rfl
  -- So both comparisons of the check come out as they do for numbers without a width.
  have nonneg : ¬ Int64.ofNat i < 0 := ofNat_not_neg (by omega)
  have fits : ¬ Int64.ofNat ((i + 1) * n) > Int64.ofNat m := by
    rw [gt_iff_lt, Int64.lt_iff_toInt_lt, Int64.toInt_ofNat_of_lt bounded,
      Int64.toInt_ofNat_of_lt (by omega)]
    omega
  have within : ¬ ((Int64.ofNat i < 0 || Int64.ofNat ((i + 1) * n) > Int64.ofNat m) = true) := by
    simp only [nonneg, fits, decide_false, Bool.or_self, Bool.false_eq_true, not_false_eq_true]
  rw [slot, next, ← Int64.ofNat_mul, if_neg within]

variable {be : Backend σ ε α β} {n : Int64} {refused : AllocError → ε}
  {body : Temp β → Action σ ε Unit} {s t : σ}

/-- A block that is asked for at a stop is not worked on. -/
theorem withTemp_error {halt : Halt ε} (stopped : be.alloc n s = .error halt t) :
    be.withTemp n refused body s = .error halt t :=
  -- The stop is in the request itself, before there is a block.
  Action.bind_error (Action.bind_error stopped)

/-- A block that is refused is an error. -/
theorem withTemp_refused {cause : AllocError} (asked : be.alloc n s = .ok (.error cause) t) :
    be.withTemp n refused body s = .error (.error (refused cause)) t := by
  -- The refusal is handed on by the request, and made an error here.
  have ran : be.acquire n s = .ok (.error cause) t := Action.bind_ok asked
  exact Action.bind_ok ran

/-- A block that is lent is worked on and given back. -/
theorem withTemp_lent {x : β} (asked : be.alloc n s = .ok (.ok x) t) :
    be.withTemp n refused body s = ((body ⟨x, n, false⟩).closing (be.free x)) t := by
  -- The block is new, so giving it back is no repetition.
  have ran : be.acquire n s = .ok (.ok ⟨x, n, false⟩) t := Action.bind_ok asked
  exact Action.bind_ok ran

end Backend

end Tangent
