import Tangent.Proofs.Expr.Shape

/-!
Places in a tree, and the first of them at which something is wrong.

A place is told by the positions of operands that lead to it from the root. In lexical order places
run through a tree from left to right, with each node before its operands. The check of a tree
reports the first flaw in this order, and its place.
-/

namespace Tangent

/-- What can be wrong with a node, whatever is known of names. -/
inductive Flaw where
  | emptyPlace
  | noOperands (kind : Kind)
deriving DecidableEq

/-- The error that reports a flaw at a place. -/
def Flaw.inTree (place : Place) : Flaw → TreeError
  | .emptyPlace => .emptyPlace place
  | .noOperands kind => .noOperands kind place

/-- The message about a flaw at a place that is written in some way. -/
def Flaw.message (path : String) : Flaw → String
  | .emptyPlace => emptyPlaceText ++ " at " ++ path
  | .noOperands kind => kind.name ++ " at " ++ path ++ ": " ++ noOperandsText

/-- An error tells its flaw and the place of it. -/
theorem Flaw.message_inTree (flaw : Flaw) (place : Place) :
    (flaw.inTree place).message = flaw.message place.text := by
  -- Each flaw has an error of its own.
  cases flaw <;> rfl

/-- The positions of a place are written behind the root. -/
theorem Place.text_eq (place : Place) :
    place.text = "root" ++ String.join (place.map (fun position => "." ++ toString position)) := by
  -- Each position is written behind those before it.
  have general : ∀ (rest : Place) (front : String),
      rest.foldl (fun text position => s!"{text}.{position}") front =
        front ++ String.join (rest.map (fun position => "." ++ toString position)) := by
    intro rest
    induction rest with
    | nil => simp
    | cons position rest ih =>
      intro front
      rw [List.foldl_cons, ih, List.map_cons, String.join_cons, ← String.append_assoc]
      simp [String.append_assoc, toString]
  exact general place "root"

namespace Expr

variable {α κ : Type}

/-- The operands of a node in order, of which an empty place has none. -/
def operands : Expr α → List (Expr α)
  | .add xs => xs
  | .mul xs => xs
  | .exp x => [x]
  | _ => []

/-- The part of a tree at a place. -/
def at? : Place → Expr α → Option (Expr α)
  | [], e => some e
  | position :: rest, e => e.operands[position]?.bind (at? rest)

/-- What is wrong with the node at the root. -/
def flaw? : Expr α → Option Flaw
  | .hole => some .emptyPlace
  | .unset _ => some .emptyPlace
  | .add [] => some (.noOperands .add)
  | .mul [] => some (.noOperands .mul)
  | _ => none

/-- A name that occurs somewhere in a tree. -/
def Occurs (name : String) (root : Expr α) : Prop := ∃ place, root.at? place = some (.var name)

/-- The first place at which something is wrong, and what it is. -/
structure FirstAt (root : Expr α) (wrong : Expr α → Option κ) (place : Place) (cause : κ) :
    Prop where
  found : ∃ e, root.at? place = some e ∧ wrong e = some cause
  first : ∀ earlier e, earlier < place → root.at? earlier = some e → wrong e = none

mutual

/-- Looks for what is wrong, in a node before its operands. -/
def firstWrong? (wrong : Expr α → Option κ) : Expr α → Option (Place × κ)
  | .const value => (wrong (.const value)).map (([], ·))
  | .var name => (wrong (.var name)).map (([], ·))
  | .add xs => ((wrong (.add xs)).map (([], ·))).or (firstWrongIn? wrong 0 xs)
  | .mul xs => ((wrong (.mul xs)).map (([], ·))).or (firstWrongIn? wrong 0 xs)
  | .exp x =>
    ((wrong (.exp x)).map (([], ·))).or
      ((x.firstWrong? wrong).map (fun found => (0 :: found.1, found.2)))
  | .hole => (wrong .hole).map (([], ·))
  | .unset kind => (wrong (.unset kind)).map (([], ·))

/-- Looks for what is wrong in operands, of which the first has the given position. -/
def firstWrongIn? (wrong : Expr α → Option κ) (position : Nat) :
    List (Expr α) → Option (Place × κ)
  | [] => none
  | e :: rest =>
    ((e.firstWrong? wrong).map (fun found => (position :: found.1, found.2))).or
      (firstWrongIn? wrong (position + 1) rest)

end

/-- Induction over trees by the operands of a node. -/
theorem operands_induction {motive : Expr α → Prop}
    (step : ∀ e, (∀ x ∈ e.operands, motive x) → motive e) (e : Expr α) : motive e := by
  -- The operands of a node are those to which the hypothesis of its constructor applies.
  induction e using induction with
  | const value => exact step _ (by simp [operands])
  | var name => exact step _ (by simp [operands])
  | add xs ih => exact step _ ih
  | mul xs ih => exact step _ ih
  | exp x ih => exact step _ (by simpa [operands] using ih)
  | hole => exact step _ (by simp [operands])
  | unset kind => exact step _ (by simp [operands])

variable {wrong : Expr α → Option κ}

/-- A node is looked at first, and then its operands. -/
theorem firstWrong?_eq (e : Expr α) :
    e.firstWrong? wrong = ((wrong e).map (([], ·))).or (firstWrongIn? wrong 0 e.operands) := by
  -- Leaves have no operands, and an exponential has one.
  cases e <;> simp [firstWrong?, operands, firstWrongIn?]

/-- Nothing is wrong with operands, or with the first ones of them up to one that is reported. -/
theorem firstWrongIn?_cases (es : List (Expr α)) :
    ∀ position,
      (firstWrongIn? wrong position es = none ∧ ∀ e ∈ es, e.firstWrong? wrong = none) ∨
      ∃ i e place cause, es[i]? = some e ∧ e.firstWrong? wrong = some (place, cause) ∧
        (∀ j x, j < i → es[j]? = some x → x.firstWrong? wrong = none) ∧
        firstWrongIn? wrong position es = some ((position + i) :: place, cause) := by
  induction es with
  | nil => exact fun position => .inl ⟨rfl, by simp⟩
  | cons e rest ih =>
    intro position
    cases here : e.firstWrong? wrong with
    | some found =>
      -- The first operand is reported, and no other one is looked at.
      refine .inr ⟨0, e, found.1, found.2, rfl, here, fun j x below => absurd below (by omega), ?_⟩
      simp [firstWrongIn?, here]
    | none =>
      have skipped : firstWrongIn? wrong position (e :: rest) =
          firstWrongIn? wrong (position + 1) rest := by
        simp [firstWrongIn?, here]
      rw [skipped]
      rcases ih (position + 1) with ⟨nothing, each⟩ | ⟨i, x, place, cause, at', own, before, found⟩
      · exact .inl ⟨nothing, by simpa [here] using each⟩
      · -- The one that is reported stands one further in the whole list.
        refine .inr ⟨i + 1, x, place, cause, at', own, fun j y below there => ?_, ?_⟩
        · cases j with
          | zero =>
            obtain rfl : e = y := by simpa using there
            exact here
          | succ j => exact before j y (by omega) (by simpa using there)
        · rw [found, Nat.add_assoc, Nat.add_comm 1]

/-- Either nothing is wrong at any place, or the first place at which something is gets reported. -/
theorem firstWrong?_cases (wrong : Expr α → Option κ) (root : Expr α) :
    (root.firstWrong? wrong = none ∧ ∀ place e, root.at? place = some e → wrong e = none) ∨
    ∃ place cause, root.firstWrong? wrong = some (place, cause) ∧
      root.FirstAt wrong place cause := by
  induction root using operands_induction with
  | step root ih =>
    rw [firstWrong?_eq]
    cases own : wrong root with
    | some cause =>
      -- Nothing comes before the root.
      refine .inr ⟨[], cause, rfl, ⟨root, rfl, own⟩, fun earlier e before => ?_⟩
      exact absurd before (List.not_lt_nil earlier)
    | none =>
      -- Places below the root are those of an operand, behind its position.
      have below {position : Nat} {rest : Place} {e : Expr α}
          (there : root.at? (position :: rest) = some e) :
          ∃ x, root.operands[position]? = some x ∧ x.at? rest = some e :=
        Option.bind_eq_some_iff.mp there
      have blameless {x : Expr α} (listed : x ∈ root.operands)
          (nothing : x.firstWrong? wrong = none) :
          ∀ place e, x.at? place = some e → wrong e = none := by
        rcases ih x listed with ⟨_, each⟩ | ⟨_, _, found, _⟩
        · exact each
        · rw [nothing] at found
          cases found
      rcases firstWrongIn?_cases root.operands 0 with
        ⟨nothing, each⟩ | ⟨i, x, place, cause, there, found, before, reported⟩
      · refine .inl ⟨nothing, fun place e at' => ?_⟩
        cases place with
        | nil =>
          obtain rfl : root = e := Option.some.inj at'
          exact own
        | cons position rest =>
          obtain ⟨x, listed, at'⟩ := below at'
          have member := List.mem_of_getElem? listed
          exact blameless member (each x member) rest e at'
      · rw [Nat.zero_add] at reported
        refine .inr ⟨i :: place, cause, reported, ?_⟩
        rcases ih x (List.mem_of_getElem? there) with ⟨nothing, _⟩ | ⟨_, _, found', firstAt⟩
        · rw [nothing] at found
          cases found
        · -- The place is that of the operand, followed by the first one in it.
          cases found.symm.trans found'
          obtain ⟨e, at', blamed⟩ := firstAt.found
          refine ⟨⟨e, by simp [at?, there, at'], blamed⟩, fun earlier e' order at' => ?_⟩
          cases earlier with
          | nil =>
            obtain rfl : root = e' := Option.some.inj at'
            exact own
          | cons j rest =>
            obtain ⟨y, listed, at'⟩ := below at'
            -- An earlier place lies in an earlier operand, or earlier in the same one.
            rcases List.cons_lt_cons_iff.mp order with sooner | ⟨rfl, sooner⟩
            · exact blameless (List.mem_of_getElem? listed) (before j y sooner listed) rest e' at'
            · cases there.symm.trans listed
              exact firstAt.first rest e' sooner at'

/-- There is one first place, with one thing wrong at it. -/
theorem FirstAt.unique {root : Expr α} {place other : Place} {cause cause' : κ}
    (first : root.FirstAt wrong place cause) (first' : root.FirstAt wrong other cause') :
    place = other ∧ cause = cause' := by
  obtain ⟨e, there, blamed⟩ := first.found
  obtain ⟨e', there', blamed'⟩ := first'.found
  -- Whichever place came first would contradict the other one.
  rcases lt_trichotomy place other with sooner | rfl | later
  · rw [first'.first place e sooner there] at blamed
    cases blamed
  · cases there.symm.trans there'
    exact ⟨rfl, Option.some.inj (blamed.symm.trans blamed')⟩
  · rw [first.first other e' later there'] at blamed'
    cases blamed'

/-- Nothing is reported exactly when nothing is wrong at any place. -/
theorem firstWrong?_eq_none {root : Expr α} :
    root.firstWrong? wrong = none ↔ ∀ place e, root.at? place = some e → wrong e = none := by
  -- One of two things is the case, and each of them rules the other one out.
  rcases firstWrong?_cases wrong root with ⟨nothing, each⟩ | ⟨place, cause, found, first⟩
  · exact ⟨fun _ => each, fun _ => nothing⟩
  · obtain ⟨e, there, blamed⟩ := first.found
    constructor
    · intro nothing
      rw [nothing] at found
      cases found
    · intro each
      rw [each place e there] at blamed
      cases blamed

/-- What is reported is what is wrong at the first place. -/
theorem firstWrong?_eq_some {root : Expr α} {place : Place} {cause : κ} :
    root.firstWrong? wrong = some (place, cause) ↔ root.FirstAt wrong place cause := by
  rcases firstWrong?_cases wrong root with ⟨nothing, each⟩ | ⟨p, c, found, first⟩
  · constructor
    · intro found
      rw [nothing] at found
      cases found
    · rintro ⟨⟨e, there, blamed⟩, _⟩
      rw [each place e there] at blamed
      cases blamed
  · constructor
    · -- What is reported is at the first place, and there is only one.
      intro found'
      cases found.symm.trans found'
      exact first
    · intro first'
      obtain ⟨rfl, rfl⟩ := first.unique first'
      exact found

/-- How a check ends that reports a flaw below a place. -/
def report (place : Place) : Option (Place × Flaw) → Except TreeError Unit
  | none => .ok ()
  | some (rest, flaw) => .error (flaw.inTree (place ++ rest))

/-- Operands are checked up to the first flaw, if each of them is. -/
theorem checkAll_eq {es : List (Expr α)}
    (each : ∀ e ∈ es, ∀ place, e.check place = report place (e.firstWrong? flaw?))
    (place : Place) (position : Nat) :
    checkAll place position es = report place (firstWrongIn? flaw? position es) := by
  induction es generalizing position with
  | nil => rfl
  | cons e rest ih =>
    have others := ih (fun x listed => each x (by simp [listed])) (position + 1)
    rw [checkAll, each e (by simp), firstWrongIn?]
    cases e.firstWrong? flaw? with
    | none => exact others
    | some found =>
      -- The position of the operand stands between the place and the rest of it.
      simp [report, Bind.bind, Except.bind]

/-- The check of a tree reports its first flaw. -/
theorem check_eq (e : Expr α) : ∀ place, e.check place = report place (e.firstWrong? flaw?) := by
  induction e using induction with
  | const value => exact fun _ => rfl
  | var name => exact fun _ => rfl
  | add xs ih =>
    intro place
    -- Without operands the node itself is the flaw, and else the first one is among them.
    cases xs with
    | nil => simp [check, firstWrong?, flaw?, report, Flaw.inTree]
    | cons x xs =>
      rw [check, checkAll_eq ih]
      simp [firstWrong?, flaw?]
  | mul xs ih =>
    intro place
    cases xs with
    | nil => simp [check, firstWrong?, flaw?, report, Flaw.inTree]
    | cons x xs =>
      rw [check, checkAll_eq ih]
      simp [firstWrong?, flaw?]
  | exp x ih =>
    intro place
    rw [check, ih]
    cases found : x.firstWrong? flaw? <;> simp [firstWrong?, flaw?, report, found]
  | hole => intro place; simp [check, firstWrong?, flaw?, report, Flaw.inTree]
  | unset kind => intro place; simp [check, firstWrong?, flaw?, report, Flaw.inTree]

/-- A tree is accepted when no node of it has a flaw. -/
theorem validate_eq_ok {root : Expr α} :
    root.validate = .ok () ↔ ∀ place e, root.at? place = some e → e.flaw? = none := by
  -- The check reports the first flaw, if there is one.
  rw [validate, check_eq, ← firstWrong?_eq_none]
  cases root.firstWrong? flaw? <;> simp [report]

/-- The error of a tree that is not accepted is the one of its first flaw. -/
theorem validate_eq_error {root : Expr α} {place : Place} {flaw : Flaw}
    (first : root.FirstAt flaw? place flaw) : root.validate = .error (flaw.inTree place) := by
  -- The check reports the first flaw.
  rw [validate, check_eq, firstWrong?_eq_some.mpr first]
  rfl

/-- A tree is accepted when its root has no flaw and its operands are accepted. -/
theorem validate_iff_operands {root : Expr α} :
    root.validate = .ok () ↔ root.flaw? = none ∧ ∀ x ∈ root.operands, x.validate = .ok () := by
  simp only [validate_eq_ok]
  constructor
  · -- A place of an operand is one of the tree, behind the position of the operand.
    intro each
    refine ⟨each [] root rfl, ?_⟩
    intro x listed place e there
    obtain ⟨i, at'⟩ := List.mem_iff_getElem?.mp listed
    exact each (i :: place) e (by simp [at?, at', there])
  · intro ⟨own, each⟩ place e there
    cases place with
    | nil =>
      obtain rfl : root = e := Option.some.inj there
      exact own
    | cons i rest =>
      obtain ⟨x, listed, there⟩ := Option.bind_eq_some_iff.mp there
      exact each x (List.mem_of_getElem? listed) rest e there

/-- A name that is mentioned is that of the node itself, or mentioned by an operand. -/
theorem mem_mentioned_cases {e : Expr α} {name : String} :
    name ∈ e.mentioned ↔ e = .var name ∨ ∃ x ∈ e.operands, name ∈ x.mentioned := by
  -- Only a variable mentions a name of its own.
  cases e <;> simp [mentioned, operands, mem_mentionedIn, eq_comm]

/-- The names that a walk looks up are those that occur. -/
theorem mem_mentioned_iff {root : Expr α} {name : String} :
    name ∈ root.mentioned ↔ root.Occurs name := by
  induction root using operands_induction with
  | step root ih =>
    rw [mem_mentioned_cases]
    constructor
    · -- The node itself stands at the root, and what an operand mentions below its position.
      rintro (rfl | ⟨x, listed, named⟩)
      · exact ⟨[], rfl⟩
      · obtain ⟨place, there⟩ := (ih x listed).mp named
        obtain ⟨i, at'⟩ := List.mem_iff_getElem?.mp listed
        exact ⟨i :: place, by simp [at?, at', there]⟩
    · rintro ⟨place, there⟩
      cases place with
      | nil => exact .inl (Option.some.inj there)
      | cons i rest =>
        obtain ⟨x, listed, there⟩ := Option.bind_eq_some_iff.mp there
        have member := List.mem_of_getElem? listed
        exact .inr ⟨x, member, (ih x member).mpr ⟨rest, there⟩⟩

/-- The variables of a tree are listed in ascending order. -/
theorem sorted_vars {root : Expr α} {names : List String} (listed : root.vars = .ok names) :
    names.Pairwise (· < ·) := by
  -- The names are the keys of a map, which keeps them in order.
  obtain ⟨labels, _, listed⟩ := ok_of_bind listed
  rw [← Except.ok.inj listed, NameMap.names, List.pairwise_map]
  exact NameMap.sorted _

end Expr

end Tangent
