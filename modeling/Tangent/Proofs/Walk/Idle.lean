import Tangent.Proofs.Expr.Places
import Tangent.Proofs.Walk.Likeness

/-!
A walk that does nothing.

On a backend that grants every request and computes nothing, only the tree and the bound names can
stop a walk. It ends with the first thing that is wrong with them.
-/

namespace Tangent

variable {ε α β : Type}

/-- The error of a walk that meets a flaw. -/
def Flaw.inWalk : Flaw → WalkError
  | .emptyPlace => .emptyPlace
  | .noOperands kind => .noOperands kind

/-- What a walk stops at in the node at the root: a flaw, or a name that is not bound. -/
def Expr.offence? (bound : String → Bool) : Expr α → Option WalkError
  | .var name => if bound name then none else some (.unbound name)
  | e => e.flaw?.map Flaw.inWalk

/-- Whether a name is bound. -/
def Context.binds (c : Context α β) (name : String) : Bool := (c.bindings.find? name).isSome

/-- A context without its buffers. -/
def Context.bare (c : Context α β) : Context α Unit :=
  ⟨c.paths, (), (), c.bindings.mapValues (fun _ b => ⟨(), b.seed⟩)⟩

/-- Without buffers the same names are bound. -/
theorem Context.binds_bare (c : Context α β) : c.bare.binds = c.binds := by
  -- Only the values of the map are dropped, and its keys are kept.
  funext name
  simp [binds, bare, NameMap.find?_mapValues]

/-- The backend that grants every request and does nothing. -/
def Backend.idle : Backend Unit ε α Unit where
  alloc _ := pure (.ok ())
  free _ := pure ()
  offset _ _ := pure ()
  fill _ _ _ := pure ()
  zero _ _ := pure ()
  copy _ _ _ := pure ()
  add _ _ _ := pure ()
  mul _ _ _ := pure ()
  exp _ _ := pure ()

namespace Walk

/-- How an idle walk ends with what was found to be wrong. -/
def ending : Option (Place × WalkError) → EStateM.Result (Halt WalkError) Unit Unit
  | none => .ok () ()
  | some (_, cause) => .error (.error cause) ()

/-- The end does not tell where something is wrong. -/
theorem ending_map (f : Place → Place) (found : Option (Place × WalkError)) :
    ending (found.map (fun entry => (f entry.1, entry.2))) = ending found := by
  -- Only the error is looked at.
  cases found <;> rfl

/-- What comes first stops a sequence first. -/
theorem ending_or {first rest : Action Unit WalkError Unit} {a b : Option (Place × WalkError)}
    (begins : first () = ending a) (goes : rest () = ending b) :
    (do first; rest) () = ending (a.or b) := by
  -- The rest is reached only where nothing is wrong with the first part.
  cases a with
  | none => exact (Action.bind_ok begins).trans goes
  | some found => exact Action.bind_error begins

/-- What goes through is followed by the rest. -/
theorem ending_after {first rest : Action Unit WalkError Unit} {found : Option (Place × WalkError)}
    (begins : first () = .ok () ()) (goes : rest () = ending found) :
    (do first; rest) () = ending found :=
  -- The state is the unit, so the rest starts as if it came first.
  (Action.bind_ok begins).trans goes

/-- What goes through may follow. -/
theorem ending_before {first rest : Action Unit WalkError Unit}
    {found : Option (Place × WalkError)} (begins : first () = ending found)
    (goes : rest () = .ok () ()) : (do first; rest) () = ending found := by
  -- This is a sequence in which nothing is wrong with the second part.
  have both := ending_or begins (b := none) goes
  rwa [Option.or_none] at both

/-- An operation on one buffer goes through. -/
theorem idle_one (op : Unary α) (n : Int64) :
    (Backend.idle.one op () n : Action Unit ε Unit) () = .ok () () := by
  -- No operation of the idle kernels does anything.
  cases op <;> rfl

/-- An operation on two buffers goes through. -/
theorem idle_two (op : Binary) (n : Int64) :
    ((Backend.idle : Backend Unit ε α Unit).two op () () n) () = .ok () () := by
  -- No operation of the idle kernels does anything.
  cases op <;> rfl

/-- Writing a constant goes through. -/
theorem idle_set [Elem α] (value : α) (n : Int64) :
    (Backend.idle.set () value n : Action Unit ε Unit) () = .ok () () := by
  -- Constants are written by an operation on one buffer.
  rw [Backend.set_eq_one]
  exact idle_one _ n

/-- Multiplications go through. -/
theorem idle_mulEach (n : Int64) (xs : List Unit) :
    mulEach (Backend.idle : Backend Unit WalkError α Unit) () n xs () = .ok () () := by
  -- Each step leaves the others to be made.
  induction xs with
  | nil => rfl
  | cons x xs ih => exact ih

/-- Additions go through. -/
theorem idle_addEach (n : Int64) (xs : List Unit) :
    addEach (Backend.idle : Backend Unit WalkError α Unit) () n xs () = .ok () () := by
  -- One buffer is added after the other.
  induction xs with
  | nil => rfl
  | cons x xs ih => exact ih

/-- The sum of partial products goes through. -/
theorem idle_sumPartials (n : Int64) (xs : List Unit) :
    sumPartials (Backend.idle : Backend Unit WalkError α Unit) () n xs () = .ok () () := by
  -- The first partial product is taken over, and the others are added to it.
  cases xs with
  | nil => rfl
  | cons x xs => exact idle_addEach n xs

/-- Stretches inside a block are found, as many as were asked for. -/
theorem idle_slots {n m : Nat} (positive : 0 < n) (bounded : m < 2 ^ 63) (count : Nat) :
    ∀ i, (i + count) * n ≤ m → ∃ xs : List Unit, xs.length = count ∧
      (Backend.idle : Backend Unit ε α Unit).slots ⟨(), Int64.ofNat m, false⟩ (Int64.ofNat n)
        (Int64.ofNat i) count () = .ok xs () := by
  induction count with
  | zero => exact fun i _ => ⟨[], rfl, rfl⟩
  | succ count ih =>
    intro i inside
    -- The first stretch ends before the others do, so it lies inside as well.
    have own : (i + 1) * n ≤ m := Nat.le_trans (Nat.mul_le_mul_right n (by omega)) inside
    obtain ⟨xs, length, others⟩ := ih (i + 1) (by rwa [Nat.add_assoc, Nat.add_comm 1])
    rw [Int64.ofNat_add, show Int64.ofNat 1 = 1 from rfl] at others
    refine ⟨() :: xs, by rw [List.length_cons, length], ?_⟩
    rw [Backend.slots, Backend.slot_inside _ () positive own bounded]
    exact Action.bind_ok others

/-- Work on a block ends as the work itself does. -/
theorem idle_withTemp (n : Int64) (refused : AllocError → WalkError)
    {body : Temp Unit → Action Unit WalkError Unit} {found : Option (Place × WalkError)}
    (works : body ⟨(), n, false⟩ () = ending found) :
    (Backend.idle : Backend Unit WalkError α Unit).withTemp n refused body () = ending found := by
  rw [Backend.withTemp_lent (x := ()) rfl]
  -- Giving the block back goes through on both ways out.
  cases found with
  | none => exact Action.closing_ok works rfl
  | some found => exact Action.closing_error works rfl

variable {c : Context α Unit}

/-- A whole number of stretches has the size that is counted. -/
theorem idle_size {n : Nat} (paths : c.paths = Int64.ofNat n) (count : Nat) :
    Int64.ofNat count * c.paths = Int64.ofNat (count * n) := by
  -- Machine integers multiply as numbers do, but for wrapping around.
  rw [paths, Int64.ofNat_mul]

variable [Elem α]

/-- Sums end with the first of their operands that something is wrong in. -/
theorem idle_visitSum {wrong : Expr α → Option WalkError} {operands : List (Expr α)}
    (each : ∀ e ∈ operands, visit Backend.idle c e () = ending (e.firstWrong? wrong))
    (position : Nat) :
    visitSum Backend.idle c () () operands () =
      ending (Expr.firstWrongIn? wrong position operands) := by
  induction operands generalizing position with
  | nil => rfl
  | cons e rest ih =>
    -- The two additions go through, so the first operand decides, or else the others.
    have others := ih (fun x listed => each x (by simp [listed])) (position + 1)
    have own := each e (by simp)
    rw [← ending_map (position :: ·)] at own
    exact ending_or own others

/-- Products end with the first of their factors that something is wrong in. -/
theorem idle_visitProduct {wrong : Expr α → Option WalkError} {operands : List (Expr α)}
    (each : ∀ e ∈ operands, visit Backend.idle c e () = ending (e.firstWrong? wrong))
    (position : Nat) :
    ∀ before after : List Unit, after.length = operands.length →
      visitProduct Backend.idle c () before after operands () =
        ending (Expr.firstWrongIn? wrong position operands) := by
  induction operands generalizing position with
  | nil => exact fun _ _ _ => rfl
  | cons e rest ih =>
    intro before after length
    have own := each e (by simp)
    rw [← ending_map (position :: ·)] at own
    -- There is a stretch for every factor, so there is one for this factor.
    cases after with
    | nil => cases length
    | cons stretch after =>
      have others := ih (fun x listed => each x (by simp [listed])) (position + 1)
        (before ++ [stretch]) after (Nat.succ.inj length)
      -- Between a factor and the next one there are only multiplications.
      refine ending_or own ?_
      refine ending_after rfl (ending_after rfl ?_)
      exact ending_after (idle_mulEach _ _) (ending_after (idle_mulEach _ _) others)

/-- An idle walk over a sum ends with the first operand that something is wrong in. -/
theorem idle_add {n : Nat} (paths : c.paths = Int64.ofNat n) (positive : 0 < n)
    {wrong : Expr α → Option WalkError} {operands : List (Expr α)}
    (some : operands.isEmpty = false) (small : 2 * n < 2 ^ 63)
    (each : ∀ e ∈ operands, visit Backend.idle c e () = ending (e.firstWrong? wrong)) :
    visit Backend.idle c (.add operands) () =
      ending (Expr.firstWrongIn? wrong 0 operands) := by
  have size : 2 * c.paths = Int64.ofNat (2 * n) := idle_size paths 2
  simp only [visit, some, Bool.false_eq_true, if_false, size]
  refine idle_withTemp _ _ ?_
  -- The block has room for both stretches.
  rw [paths, show (0 : Int64) = Int64.ofNat 0 from rfl, show (1 : Int64) = Int64.ofNat 1 from rfl,
    Backend.slot_inside _ () positive (by omega) small,
    Backend.slot_inside _ () positive (by omega) small]
  exact ending_before (idle_visitSum each 0) rfl

/-- An idle walk over a product ends with the first factor that something is wrong in. -/
theorem idle_mul {n : Nat} (paths : c.paths = Int64.ofNat n) (positive : 0 < n)
    {wrong : Expr α → Option WalkError} {operands : List (Expr α)}
    (some : operands.isEmpty = false) (small : (operands.length + 1) * n < 2 ^ 63)
    (each : ∀ e ∈ operands, visit Backend.idle c e () = ending (e.firstWrong? wrong)) :
    visit Backend.idle c (.mul operands) () =
      ending (Expr.firstWrongIn? wrong 0 operands) := by
  have size : (Int64.ofNat operands.length + 1) * c.paths =
      Int64.ofNat ((operands.length + 1) * n) := by
    rw [← idle_size paths, Int64.ofNat_add]
    rfl
  simp only [visit, some, Bool.false_eq_true, if_false, size]
  refine idle_withTemp _ _ ?_
  -- The block has room for the product and for one partial product of each factor.
  obtain ⟨partials, length, found⟩ := idle_slots (ε := WalkError) (α := α) positive small
    operands.length 1 (by rw [Nat.add_comm])
  have first : 1 * n ≤ (operands.length + 1) * n := Nat.mul_le_mul_right n (by omega)
  rw [paths, show (0 : Int64) = Int64.ofNat 0 from rfl, Backend.slot_inside _ () positive first
    small]
  -- Finding stretches leaves the backend as it is, and so does all that is done with them.
  refine (Action.bind_ok rfl).trans ((Action.bind_ok found).trans ?_)
  have product := idle_visitProduct each 0 [] partials length
  refine ending_after rfl (ending_before product ?_)
  exact (Action.bind_ok (idle_sumPartials _ partials)).trans rfl

/-- An idle walk ends with the first offence in its tree, if all blocks can be counted. -/
theorem idle_visit {n : Nat} (paths : c.paths = Int64.ofNat n) (positive : 0 < n) (e : Expr α) :
    n * e.broadest < 2 ^ 63 →
      visit Backend.idle c e () = ending (e.firstWrong? (Expr.offence? c.binds)) := by
  -- No operand has a broader node than all of them, so the blocks of each can be counted.
  have each {operands : List (Expr α)}
      (ih : ∀ e ∈ operands, n * e.broadest < 2 ^ 63 →
        visit Backend.idle c e () = ending (e.firstWrong? (Expr.offence? c.binds)))
      (small : n * Expr.broadestOf operands ≤ 2 ^ 63 - 1) :
      ∀ e ∈ operands, visit Backend.idle c e () =
        ending (e.firstWrong? (Expr.offence? c.binds)) := by
    intro e listed
    have bound := Nat.mul_le_mul_left n (Expr.broadest_le_broadestOf listed)
    exact ih e listed (by omega)
  induction e using Expr.induction with
  | const value => exact fun _ => (Action.bind_ok (idle_set value _)).trans rfl
  | var name =>
    intro _
    have known : c.binds name = (c.bindings.find? name).isSome := rfl
    -- The name is looked up before anything is copied.
    cases found : c.bindings.find? name with
    | none =>
      simp only [visit, Context.lookup, found, Expr.firstWrong?, Expr.offence?, known]
      rfl
    | some b =>
      have bound : c.lookup name = .ok b := by rw [Context.lookup, found]
      simp only [visit, bound, Expr.firstWrong?, Expr.offence?, known, found]
      exact (Action.bind_ok rfl).trans (idle_set b.seed c.paths)
  | add operands ih =>
    intro small
    cases operands with
    | nil => rfl
    | cons x rest =>
      have some : (x :: rest).isEmpty = false := rfl
      obtain ⟨block, below⟩ := Expr.broadest_add_le some (Nat.le_sub_one_of_lt small)
      exact idle_add paths positive some (by omega) (each ih below)
  | mul operands ih =>
    intro small
    cases operands with
    | nil => rfl
    | cons x rest =>
      have some : (x :: rest).isEmpty = false := rfl
      obtain ⟨block, below⟩ := Expr.broadest_mul_le some (Nat.le_sub_one_of_lt small)
      exact idle_mul paths positive some (by omega) (each ih below)
  | exp x ih =>
    intro small
    -- What follows the exponent goes through.
    have own := ih small
    rw [← ending_map (0 :: ·)] at own
    exact ending_before own rfl
  | hole => exact fun _ => rfl
  | unset kind => exact fun _ => rfl

end Walk

end Tangent
