import Tangent.Evaluate
import Tangent.Proofs.Walk.PerPath

/-! Evaluation is a walk, once all buffers are known to cover the paths. -/

namespace Tangent

variable {σ α : Type}

/-- What inputs are evaluated in: one path for every element of the value register. -/
def evaluationContext (inputs : NameMap (Binding α View)) (value deriv : View) : Context α View :=
  ⟨Int64.ofNat value.length, value, deriv, inputs⟩

/-- Inputs that cover all paths are bound in order. -/
theorem bindInputs_eq_ok {paths : Nat} {entries : List (String × Binding α View)}
    (long : ∀ entry ∈ entries, paths ≤ entry.2.data.length) (c : Context α View) :
    bindInputs paths c entries =
      .ok { c with bindings :=
        entries.foldl (fun m entry => m.insert entry.1 entry.2) c.bindings } := by
  induction entries generalizing c with
  | nil => rfl
  | cons entry rest ih =>
    -- The data is long enough, so the check passes and the rest follows.
    have first := long entry (by simp)
    rw [bindInputs, if_neg (by omega), ih (fun entry found => long entry (by simp [found]))]
    rfl

/-- With buffers that are long enough, evaluating is walking. -/
theorem evaluate_eq_generate [Elem α] {inputs : NameMap (Binding α View)} {value deriv : View}
    {s : Store α} (laid : (evaluationContext inputs value deriv).Laid value.length s)
    (be : Backend σ WalkError α View) (root : Expr α) :
    evaluate be root inputs value deriv =
      (Walk.generate be (evaluationContext inputs value deriv) root).adapt .walk := by
  -- Every check of the evaluation is about a length that the layout vouches for.
  have bound := bindInputs_eq_ok
    (fun entry found =>
      (laid.data entry.1 entry.2 ((inputs.mem_entries_iff _ _).mp found)).1.long)
    (Context.new (Int64.ofNat value.length) value deriv)
  -- Binding all entries one by one rebuilds the map they come from.
  have all := NameMap.ofList_entries inputs
  rw [NameMap.ofList] at all
  simp only [Context.new, all] at bound
  have enough : ¬ deriv.length < value.length := Nat.not_lt.mpr laid.deriv.long
  simp only [evaluate, Context.new, bound, enough, if_false]
  rfl

end Tangent
