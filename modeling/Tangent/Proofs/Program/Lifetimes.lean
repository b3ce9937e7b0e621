import Tangent.Proofs.File.Decoded

/-!
Lifetimes of temporaries in a list of instructions.

Which temporaries are live after instructions is told by the instructions alone. So is the order in
which temporaries begin and end, and the most elements that they ever have together.
-/

namespace Tangent

open ProgramFile (elements elements_nonneg)

variable {α : Type}

/-- The live temporaries after one more instruction. -/
def TempTable.after (live : TempTable Int64) (i : Instr α) : TempTable Int64 :=
  match i.op with
  | .alloc => live.insert i.dst.index i.len
  | .free => live.erase i.dst.index
  | _ => live

/-- Only beginnings and ends of temporaries matter. -/
theorem TempTable.after_other (live : TempTable Int64) {i : Instr α}
    (other : i.op ≠ .alloc ∧ i.op ≠ .free) : live.after i = live := by
  -- Every other operation falls to the last branch.
  unfold after
  split
  · exact absurd ‹_› other.1
  · exact absurd ‹_› other.2
  · rfl

namespace Program

/-- The live temporaries after instructions, with the one that began last in front. -/
def liveAfter (is : List (Instr α)) : TempTable Int64 := is.foldl TempTable.after []

/-- The numbers of the temporaries that begin, in order. -/
def begun (is : List (Instr α)) : List Int64 :=
  is.filterMap (fun i => if i.op = .alloc then some i.dst.index else none)

/-- Every temporary that ends is the one of the live ones that began last. -/
def LatestFirst (is : List (Instr α)) : Prop :=
  ∀ before i, before ++ [i] <+: is → i.op = .free →
    (liveAfter before).head?.map (·.1) = some i.dst.index

/-- The elements of live temporaries can always be counted by a machine integer. -/
def Countable (is : List (Instr α)) : Prop :=
  ∀ before, before <+: is → elements (liveAfter before) < 2 ^ 63

/-- The most elements of temporaries that are live at once. -/
def IsPeak (is : List (Instr α)) (most : Int) : Prop :=
  IsGreatest { total | ∃ before, before <+: is ∧ elements (liveAfter before) = total } most

variable {is : List (Instr α)} {i : Instr α}

/-- What is live after one more instruction. -/
theorem liveAfter_concat : liveAfter (is ++ [i]) = (liveAfter is).after i := by
  -- The instructions are gone through from the first one on.
  simp [liveAfter]

/-- Numbers of temporaries that begin are listed in the order of instructions. -/
theorem begun_concat :
    begun (is ++ [i]) = begun is ++ if i.op = .alloc then [i.dst.index] else [] := by
  -- The last instruction adds a number only as a request for a block.
  rw [begun, List.filterMap_append]
  congr 1
  by_cases asks : i.op = .alloc <;> simp [asks]

/-- One more instruction has to end the latest temporary, if it ends one. -/
theorem LatestFirst.concat (ordered : LatestFirst is)
    (latest : i.op = .free → (liveAfter is).head?.map (·.1) = some i.dst.index) :
    LatestFirst (is ++ [i]) := by
  intro before j listed ends
  -- The instruction is the last one, or it was there before.
  rcases List.prefix_concat_iff.mp listed with same | earlier
  · obtain ⟨rfl, last⟩ := List.append_inj' same rfl
    obtain rfl : j = i := by simpa using last
    exact latest ends
  · exact ordered before j earlier ends

/-- What can be counted after more instructions could be counted before. -/
theorem Countable.of_concat (countable : Countable (is ++ [i])) : Countable is :=
  -- Starts of fewer instructions are starts of all of them.
  fun before listed => countable before (listed.trans (List.prefix_append is [i]))

/-- The last of the live elements can be counted. -/
theorem Countable.last (countable : Countable is) : elements (liveAfter is) < 2 ^ 63 :=
  -- All instructions are a start of themselves.
  countable is List.prefix_rfl

/-- The most live elements are those before one more instruction, or those after it. -/
theorem IsPeak.concat {most : Int} (peak : IsPeak is most) :
    IsPeak (is ++ [i]) (max most (elements (liveAfter (is ++ [i])))) := by
  constructor
  · -- The larger of the two is reached where it was reached.
    rcases Int.le_total most (elements (liveAfter (is ++ [i]))) with more | less
    · exact ⟨is ++ [i], List.prefix_rfl, by omega⟩
    · obtain ⟨before, listed, reached⟩ := peak.1
      exact ⟨before, listed.trans (List.prefix_append is [i]), by omega⟩
  · -- No other prefix reaches more: it is the whole, or one that was there before.
    rintro total ⟨before, listed, rfl⟩
    rcases List.prefix_concat_iff.mp listed with rfl | earlier
    · exact Int.le_max_right _ _
    · exact Int.le_trans (peak.2 ⟨before, earlier, rfl⟩) (Int.le_max_left _ _)

/-- One more instruction that begins nothing leaves the peak where it is. -/
theorem IsPeak.concat_of_le {most : Int} (peak : IsPeak is most)
    (less : elements (liveAfter (is ++ [i])) ≤ elements (liveAfter is)) :
    IsPeak (is ++ [i]) most := by
  -- The instruction leaves no more than there was, and that is within the peak.
  have before := peak.2 ⟨is, List.prefix_rfl, rfl⟩
  have same : max most (elements (liveAfter (is ++ [i]))) = most := by omega
  exact same ▸ peak.concat

/-- Without instructions nothing is ever live. -/
theorem isPeak_nil : IsPeak ([] : List (Instr α)) 0 := by
  -- The only start is the empty one.
  constructor
  · exact ⟨[], List.prefix_rfl, rfl⟩
  · rintro total ⟨before, listed, rfl⟩
    rw [List.prefix_nil.mp listed]
    exact Int.le_refl 0

end Program

end Tangent
