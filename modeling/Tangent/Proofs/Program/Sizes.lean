import Tangent.Proofs.Program.Compile
import Tangent.Proofs.Walk.Borrows
import Tangent.Proofs.Walk.Returns

/-!
Which trees become programs, for every number of paths.

Whether a tree is compiled, refused or stopped at a misuse depends on nothing but what machine
integers leave of the sizes of its blocks.
-/

namespace Tangent

variable {α : Type}

/-- An operand that a recorder accepts while these temporaries are live. -/
def Ref.Usable (live : TempTable Int64) (x : Ref) : Prop :=
  x.space = .temp → (live.find? x.index).isSome

namespace Recorder

/-- Where temporaries are live, with so many stretches in them, and so many more can begin. -/
structure Level (r : Recorder α) (paths limit : Int64) (live : TempTable Int64)
    (below spare : Nat) : Prop where
  live : r.live = live
  elements : r.liveElements = Int64.ofNat below * paths
  limit : r.limit = limit
  fresh : r.Fresh spare

variable {ε τ : Type} {paths limit : Int64} {live : TempTable Int64} {below spare : Nat}
  {r : Recorder α} {x y : Ref}

/-- An operand that can be used is used. -/
theorem use_usable (usable : x.Usable r.live) :
    (use x : Action (Recorder α) ε Unit) r = .ok () r := by
  -- Only a temporary that is not live is refused.
  unfold use
  rw [Action.get_bind]
  have there : (decide (x.space = .temp) && (r.live.find? x.index).isNone) = false := by
    simpa [Ref.Usable] using usable
  simp only [there, Bool.false_eq_true, if_false]
  rfl

/-- A recorder is on the same level with one more instruction. -/
theorem Level.record (level : r.Level paths limit live below spare) (i : Instr α) :
    (r.record i).Level paths limit live below spare :=
  -- A level does not look at what was written down.
  ⟨level.live, level.elements, level.limit, level.fresh⟩

/-- A recorder that can begin some temporaries can begin fewer. -/
theorem Level.mono {less : Nat} (level : r.Level paths limit live below spare)
    (fewer : less ≤ spare) : r.Level paths limit live below less :=
  -- Only the number of temporaries to come is bounded from above.
  { level with fresh := ⟨by have := level.fresh.1; omega, level.fresh.2⟩ }

/--
A computation whose end is decided by blocks, while these temporaries are live.

It may begin `more` temporaries, and leaves the recorder on the level on which it was.
-/
def Ends (paths limit : Int64) (live : TempTable Int64) (below more : Nat) (blocks : List Borrow)
    (body : Action (Recorder α) WalkError Unit) : Prop :=
  ∀ spare r, r.Level paths limit live below (spare + more) →
    ∃ ended r', body.outcome r = (ended, r') ∧ Decided paths limit blocks ended ∧
      r'.Level paths limit live below spare

namespace Ends

variable {more more' : Nat} {blocks blocks' : List Borrow}
  {body next : Action (Recorder α) WalkError Unit}

/-- What goes through without blocks leaves the recorder on its level. -/
theorem still (ran : ∀ spare r, r.Level paths limit live below spare →
      ∃ r', body r = .ok () r' ∧ r'.Level paths limit live below spare) :
    Ends paths limit live below 0 [] body := by
  -- The outcome is that of a body that goes through.
  intro spare r level
  obtain ⟨r', ran, level⟩ := ran spare r level
  exact ⟨.ok (), r', by rw [Action.outcome, ran], .through, level⟩

/-- The blocks of computations decide one after the other. -/
theorem bind (first : Ends paths limit live below more blocks body)
    (second : Ends paths limit live below more' blocks' next) :
    Ends paths limit live below (more + more') (blocks ++ blocks') (do body; next) := by
  intro spare r level
  rw [Nat.add_comm more, ← Nat.add_assoc] at level
  obtain ⟨ended, r', ran, decided, level⟩ := first (spare + more') r level
  cases ended with
  | ok _ =>
    obtain ⟨ended, r'', rest, later, level⟩ := second spare r' level
    refine ⟨ended, r'', ?_, decided.append later, level⟩
    rw [Action.outcome, Action.bind_ok (Action.eq_ok_of_outcome ran)]
    exact rest
  | error halt =>
    -- What was not begun is left over.
    refine ⟨.error halt, r', ?_, decided.append_error, level.mono (by omega)⟩
    rw [Action.outcome, Action.bind_error (Action.eq_error_of_outcome ran)]

/-- What comes without blocks first leaves the decision to the rest. -/
theorem after (first : Ends paths limit live below 0 [] body)
    (second : Ends paths limit live below more blocks next) :
    Ends paths limit live below more blocks (do body; next) := by
  -- Without blocks in front, all of them are those of the rest.
  have both := first.bind second
  rwa [Nat.zero_add] at both

/-- What comes without blocks last changes nothing about the decision. -/
theorem before (first : Ends paths limit live below more blocks body)
    (second : Ends paths limit live below 0 [] next) :
    Ends paths limit live below more blocks (do body; next) := by
  -- Without blocks behind, all of them are those of the first part.
  have both := first.bind second
  rwa [List.append_nil] at both

/-- What is found without a change is passed on. -/
theorem given {get : Action (Recorder α) WalkError τ}
    {rest : τ → Action (Recorder α) WalkError Unit} {a : τ} (found : ∀ r, get r = .ok a r)
    (second : Ends paths limit live below more blocks (rest a)) :
    Ends paths limit live below more blocks (get >>= rest) := by
  -- Finding it takes no step of its own.
  have same : (get >>= rest) = rest a := funext fun r => Action.bind_ok (found r)
  rwa [same]

variable [Elem α]

/-- An operation on one operand is written down. -/
theorem one (op : Unary α) (usable : x.Usable live) (n : Int64) :
    Ends paths limit live below 0 [] (backend.one op x n) := by
  refine still (fun spare r level => ⟨r.record (op.instr x n), ?_, level.record _⟩)
  -- The operand is looked up in what is live before the instruction is written down.
  have used := use_usable (ε := WalkError) (level.live.symm ▸ usable)
  cases op <;> exact Action.bind_ok used

/-- An operation on two operands is written down. -/
theorem two (op : Binary) (source : x.Usable live) (target : y.Usable live) (n : Int64) :
    Ends paths limit live below 0 [] (backend.two op x y n : Action (Recorder α) _ _) := by
  -- Both operands are looked at before the instruction is written down.
  refine still (fun spare r level => ⟨r.record (op.instr x y n), ?_, level.record _⟩)
  have used := use_usable (ε := WalkError) (level.live.symm ▸ source)
  have used' := use_usable (ε := WalkError) (level.live.symm ▸ target)
  cases op <;> exact (Action.bind_ok used).trans (Action.bind_ok used')

/-- Writing a constant is written down. -/
theorem set (value : α) (usable : x.Usable live) (n : Int64) :
    Ends paths limit live below 0 [] (backend.set x value n) := by
  -- A constant is written by an operation on one operand.
  rw [Backend.set_eq_one]
  exact one _ usable n

end Ends

section Blocks

variable [Elem α] {index : Int64} {k : Nat}

/-- A block of some stretches, as a temporary. -/
def block (index paths : Int64) (k : Nat) : Temp Ref :=
  ⟨⟨.temp, index, 0⟩, Int64.ofNat k * paths, false⟩

/-- The stretches of a block are temporaries of its number. -/
def PartOf (index : Int64) (x : Ref) : Prop := x.space = .temp ∧ x.index = index

/-- A part of a block can be used while the block is live. -/
theorem PartOf.usable (part : PartOf index x) {size : Int64} :
    x.Usable (live.insert index size) := by
  -- The block stands under its number as long as it is live.
  intro _
  rw [part.2, TempTable.find?_insert, if_pos rfl]
  rfl

/-- The number of the next stretch is that of one more stretch. -/
theorem ofNat_add_one (i : Nat) : Int64.ofNat i + 1 = Int64.ofNat (i + 1) :=
  -- Machine integers add as their counts do, wrapping around at the same place.
  (Int64.ofNat_add i 1).symm

/-- A stretch seems to end behind its block by what is left of the two sizes. -/
theorem stretch_gt_iff {j : Nat} : (Int64.ofNat j + 1) * paths > Int64.ofNat k * paths ↔
    wrapped k paths < wrapped (j + 1) paths := by
  -- Both sizes are compared as machine integers, which is by what is left of them.
  rw [gt_iff_lt, Int64.lt_iff_toInt_lt, ofNat_add_one, toInt_stretches, toInt_stretches]

/-- A stretch that seems to end inside its block is found. -/
theorem slot_fits (index : Int64) {j : Nat} (small : j < 2 ^ 63)
    (fits : wrapped (j + 1) paths ≤ wrapped k paths) :
    ∃ x, PartOf index x ∧ ∀ r : Recorder α,
      (backend.slot (block index paths k) (Int64.ofNat j) paths : Action (Recorder α) ε Ref) r =
        .ok x r := by
  -- The two conditions under which a stretch is refused both fail.
  have inside : ¬ (Int64.ofNat j + 1) * paths > Int64.ofNat k * paths :=
    fun outside => absurd (stretch_gt_iff.mp outside) (not_lt.mpr fits)
  have both : ¬ (Int64.ofNat j < 0 || (Int64.ofNat j + 1) * paths > Int64.ofNat k * paths) =
      true := by
    simp [ofNat_not_neg small, inside]
  rw [Backend.slot, block, if_neg both]
  exact ⟨_, ⟨rfl, rfl⟩, fun _ => rfl⟩

/-- A stretch that seems to end behind its block is a misuse. -/
theorem slot_misfit (index : Int64) {j : Nat} (misfit : wrapped k paths < wrapped (j + 1) paths)
    (r : Recorder α) : ∃ text, (backend.slot (block index paths k) (Int64.ofNat j) paths :
      Action (Recorder α) ε Ref) r = .error (.fault (.panic text)) r := by
  -- The second of the two conditions under which a stretch is refused is met.
  have outside : (Int64.ofNat j + 1) * paths > Int64.ofNat k * paths := stretch_gt_iff.mpr misfit
  have either : (Int64.ofNat j < 0 || (Int64.ofNat j + 1) * paths > Int64.ofNat k * paths) =
      true := by
    simp [outside]
  rw [Backend.slot, block, if_pos either]
  exact ⟨_, rfl⟩

/-- Stretches that all seem to end inside their block are found. -/
theorem slots_fit (index : Int64) (count : Nat) :
    ∀ i, i + count ≤ 2 ^ 63 →
      (∀ j, i ≤ j → j < i + count → wrapped (j + 1) paths ≤ wrapped k paths) →
      ∃ xs : List Ref, xs.length = count ∧ (∀ x ∈ xs, PartOf index x) ∧ ∀ r : Recorder α,
        (backend.slots (block index paths k) paths (Int64.ofNat i) count :
          Action (Recorder α) ε _) r = .ok xs r := by
  -- The stretches are asked for one after the other, from the first one on.
  induction count with
  | zero => exact fun _ _ _ => ⟨[], rfl, by simp, fun _ => rfl⟩
  | succ count ih =>
    intro i small fit
    obtain ⟨x, part, found⟩ := slot_fits (α := α) (ε := ε) index (by omega)
      (fit i (Nat.le_refl i) (by omega))
    obtain ⟨xs, number, parts, others⟩ :=
      ih (i + 1) (by omega) (fun j low high => fit j (by omega) (by omega))
    refine ⟨x :: xs, by simp [number], by simpa using ⟨part, parts⟩, fun r => ?_⟩
    rw [Backend.slots, Action.bind_ok (found r), ofNat_add_one, Action.bind_ok (others r)]
    rfl

/-- Of stretches some of which seem to end behind their block the first such one is a misuse. -/
theorem slots_misfit (index : Int64) (count : Nat) :
    ∀ i j, i + count ≤ 2 ^ 63 → i ≤ j → j < i + count → wrapped k paths < wrapped (j + 1) paths →
      ∀ r : Recorder α, ∃ text, (backend.slots (block index paths k) paths (Int64.ofNat i) count :
        Action (Recorder α) ε _) r = .error (.fault (.panic text)) r := by
  induction count with
  | zero => exact fun i j _ low high => absurd high (by omega)
  | succ count ih =>
    intro i j small low high misfit r
    -- The first stretch is looked at first, and the others only if it fits.
    rcases lt_or_ge (wrapped k paths) (wrapped (i + 1) paths) with here | fits
    · obtain ⟨text, stopped⟩ := slot_misfit (ε := ε) index here r
      exact ⟨text, Action.bind_error stopped⟩
    · obtain ⟨x, _, found⟩ := slot_fits (α := α) (ε := ε) index (by omega) fits
      have later : i ≠ j := fun same => absurd (same ▸ misfit) (not_lt.mpr fits)
      obtain ⟨text, stopped⟩ := ih (i + 1) j (by omega) (by omega) (by omega) misfit r
      refine ⟨text, ?_⟩
      rw [Backend.slots, Action.bind_ok (found r), ofNat_add_one]
      exact Action.bind_error stopped

/-- A request is refused or granted by what is left of its size and of the sum. -/
theorem Level.alloc_cases (level : r.Level paths limit live below spare) (k : Nat) :
    (Borrow.Refused paths limit ⟨k, below + k⟩ ∧
      ∃ cause, (alloc (Int64.ofNat k * paths) : Action (Recorder α) ε _) r =
        .ok (.error cause) r) ∨
    ¬ Borrow.Refused paths limit ⟨k, below + k⟩ ∧
      (alloc (Int64.ofNat k * paths) : Action (Recorder α) ε _) r =
        .ok (.ok ⟨.temp, r.nextTemp, 0⟩) (r.opened (Int64.ofNat k * paths)) := by
  -- The size and the sum of all sizes are products of machine integers, like the stretches.
  have size : Int64.ofNat k * paths ≤ 0 ↔ wrapped k paths ≤ 0 := by
    rw [Int64.le_iff_toInt_le, toInt_stretches, Int64.toInt_zero]
  have sum : r.liveElements + Int64.ofNat k * paths = Int64.ofNat (below + k) * paths := by
    rw [level.elements, Int64.ofNat_add, Int64.add_mul]
  have exceeds : (r.limit > 0 && r.liveElements + Int64.ofNat k * paths > r.limit) = true ↔
      0 < limit.toInt ∧ limit.toInt < wrapped (below + k) paths := by
    rw [sum, level.limit]
    simp only [gt_iff_lt, Bool.and_eq_true, decide_eq_true_eq, Int64.lt_iff_toInt_lt,
      toInt_stretches, Int64.toInt_zero]
  by_cases proper : Int64.ofNat k * paths ≤ 0
  · exact .inl ⟨.inl (size.mp proper), _, alloc_improper proper⟩
  by_cases limited : (r.limit > 0 && r.liveElements + Int64.ofNat k * paths > r.limit) = true
  · exact .inl ⟨.inr (exceeds.mp limited), _, alloc_limited proper limited⟩
  · refine .inr ⟨?_, alloc_granted proper limited⟩
    rintro (small | above)
    · exact proper (size.mpr small)
    · exact limited (exceeds.mpr above)

/-- A block that is lent is given back to the level on which it was borrowed. -/
theorem Level.closed {r' : Recorder α} {size : Int64} (sized : Int64.ofNat k * paths = size)
    (absent : live.erase index = live)
    (level : r'.Level paths limit (live.insert index size) (below + k) spare) :
    (free ⟨.temp, index, 0⟩ : Action (Recorder α) ε Unit) r' = .ok () (r'.closed index size) ∧
      (r'.closed index size).Level paths limit live below spare := by
  have found : r'.live.find? index = some size := by
    rw [level.live, TempTable.find?_insert, if_pos rfl]
  have erased : r'.live.erase index = live := by
    rw [level.live, TempTable.insert, TempTable.erase, List.filter_cons_of_neg (by simp)]
    -- The block was not live before, so erasing it again leaves the level below.
    exact (congrArg (TempTable.erase · index) absent).trans absent
  refine ⟨free_live found, ⟨erased, ?_, level.limit, level.fresh.1, fun entry listed => ?_⟩⟩
  · show r'.liveElements - size = _
    rw [level.elements, ← sized, Int64.ofNat_add, Int64.add_mul, Int64.add_sub_cancel]
  · exact level.fresh.2 entry (List.mem_of_mem_filter listed)

/-- A block is refused, or a misuse of its stretches, or decided by what is done with it. -/
theorem Ends.withTemp {more : Nat} {blocks : List Borrow}
    {body : Temp Ref → Action (Recorder α) WalkError Unit}
    (misfits : Borrow.Misfit paths ⟨k, below + k⟩ → ∀ index r,
      ∃ text, body (block index paths k) r = .error (.fault (.panic text)) r)
    (works : ¬ Borrow.Misfit paths ⟨k, below + k⟩ → ∀ index,
      Ends paths limit (live.insert index (Int64.ofNat k * paths)) (below + k) more blocks
        (body (block index paths k))) :
    Ends paths limit live below (more + 1) (⟨k, below + k⟩ :: blocks)
      (backend.withTemp (Int64.ofNat k * paths) (.alloc (Int64.ofNat k * paths)) body) := by
  intro spare r level
  rw [← Nat.add_assoc] at level
  rcases level.alloc_cases (ε := WalkError) k with ⟨refused, cause, denied⟩ | ⟨lent, granted⟩
  · -- Nothing has begun, and the walk stops with the refusal.
    refine ⟨_, r, ?_, .stops (.refused cause refused), level.mono (by omega)⟩
    rw [Action.outcome, Backend.withTemp_refused denied]
  · have begun : (backend.withTemp (Int64.ofNat k * paths) (.alloc (Int64.ofNat k * paths))
        body).outcome r = ((body (block r.nextTemp paths k)).closing
          (free ⟨.temp, r.nextTemp, 0⟩)).outcome (r.opened (Int64.ofNat k * paths)) := by
      rw [Action.outcome, Backend.withTemp_lent granted]
      rfl
    -- The number of the block is new, so giving it back leaves what was live before.
    have absent := level.fresh.absent
    rw [level.live] at absent
    have inner : (r.opened (Int64.ofNat k * paths)).Level paths limit
        (live.insert r.nextTemp (Int64.ofNat k * paths)) (below + k) (spare + more) := by
      refine ⟨congrArg (TempTable.insert · _ _) level.live, ?_, level.limit,
        level.fresh.opened _⟩
      show r.liveElements + _ = _
      rw [level.elements, Int64.ofNat_add, Int64.add_mul]
    -- However the work ends, the block is given back.
    obtain ⟨ended, r', worked, decided, after⟩ : ∃ ended r',
        (body (block r.nextTemp paths k)).outcome (r.opened (Int64.ofNat k * paths)) =
          (ended, r') ∧
        Decided paths limit (⟨k, below + k⟩ :: blocks) ended ∧
        r'.Level paths limit (live.insert r.nextTemp (Int64.ofNat k * paths)) (below + k)
          spare := by
      -- A misfit stops the work before it has recorded anything.
      by_cases misfit : Borrow.Misfit paths ⟨k, below + k⟩
      · obtain ⟨text, stopped⟩ := misfits misfit r.nextTemp (r.opened (Int64.ofNat k * paths))
        exact ⟨_, _, by rw [Action.outcome, stopped], .stops (.misfit text lent misfit),
          inner.mono (by omega)⟩
      · obtain ⟨ended, r', worked, decided, after⟩ := works misfit r.nextTemp spare _ inner
        exact ⟨ended, r', worked, .admitted ⟨lent, misfit⟩ decided, after⟩
    obtain ⟨freed, level'⟩ := after.closed (ε := WalkError) rfl absent
    refine ⟨ended, _, ?_, decided, level'⟩
    have closed : (free ⟨.temp, r.nextTemp, 0⟩ : Action (Recorder α) WalkError Unit).outcome r' =
        (.ok (), r'.closed r.nextTemp (Int64.ofNat k * paths)) := by
      rw [Action.outcome, freed]
    rw [begun, Action.outcome_closing, worked, closed]

end Blocks

/-- A context whose buffers are there all the time. -/
structure Lasting (c : Context α Ref) (paths : Int64) : Prop where
  paths : c.paths = paths
  value : c.value.space ≠ .temp
  deriv : c.deriv.space ≠ .temp
  data : ∀ name b, c.bindings.find? name = some b → b.data.space ≠ .temp

/-- What is no temporary can be used. -/
theorem usable_of_ne (other : x.space ≠ .temp) : x.Usable live := fun temp => absurd temp other

namespace Ends

variable [Elem α] {c : Context α Ref}

/-- Multiplications by a source are written down. -/
theorem mulEach (source : x.Usable live) (n : Int64) {ys : List Ref}
    (targets : ∀ y ∈ ys, y.Usable live) :
    Ends paths limit live below 0 [] (Walk.mulEach backend x n ys : Action (Recorder α) _ _) := by
  -- The multiplications are written down in turn, and none of them asks for a block.
  induction ys with
  | nil => exact still (fun spare r level => ⟨r, rfl, level⟩)
  | cons y ys ih =>
    rw [List.forall_mem_cons] at targets
    exact (two .mul source targets.1 n).after (ih targets.2)

/-- Additions to a destination are written down. -/
theorem addEach (target : y.Usable live) (n : Int64) {xs : List Ref}
    (sources : ∀ x ∈ xs, x.Usable live) :
    Ends paths limit live below 0 [] (Walk.addEach backend y n xs : Action (Recorder α) _ _) := by
  -- The additions are written down in turn, and none of them asks for a block.
  induction xs with
  | nil => exact still (fun spare r level => ⟨r, rfl, level⟩)
  | cons x xs ih =>
    rw [List.forall_mem_cons] at sources
    exact (two .add sources.1 target n).after (ih sources.2)

/-- The sum of partial products is written down. -/
theorem sumPartials (target : y.Usable live) (n : Int64) {xs : List Ref}
    (sources : ∀ x ∈ xs, x.Usable live) :
    Ends paths limit live below 0 []
      (Walk.sumPartials backend y n xs : Action (Recorder α) _ _) := by
  -- The first partial product is copied, and the others are added to it.
  cases xs with
  | nil => exact still (fun spare r level => ⟨r, rfl, level⟩)
  | cons x xs =>
    rw [List.forall_mem_cons] at sources
    exact (two .copy sources.1 target n).after (addEach target n sources.2)

/-- The blocks of operands decide about a sum one after the other. -/
theorem visitSum (lasting : Lasting c paths) {value deriv : Ref} (values : value.Usable live)
    (derivs : deriv.Usable live) {operands : List (Expr α)}
    (each : ∀ e ∈ operands,
      Ends paths limit live below e.blocks (e.borrows below) (Walk.visit backend c e)) :
    Ends paths limit live below (Expr.blocksOf operands) (Expr.borrowsOf below operands)
      (Walk.visitSum backend c value deriv operands) := by
  -- Each operand comes with its own blocks, and with two additions that need none.
  induction operands with
  | nil => exact still (fun spare r level => ⟨r, rfl, level⟩)
  | cons e rest ih =>
    rw [List.forall_mem_cons] at each
    refine each.1.bind ?_
    refine (two .add (usable_of_ne lasting.value) values _).after ?_
    exact (two .add (usable_of_ne lasting.deriv) derivs _).after (ih each.2)

/-- The blocks of factors decide about a product one after the other. -/
theorem visitProduct (lasting : Lasting c paths) {value : Ref} (values : value.Usable live)
    {operands : List (Expr α)}
    (each : ∀ e ∈ operands,
      Ends paths limit live below e.blocks (e.borrows below) (Walk.visit backend c e)) :
    ∀ before after : List Ref, (∀ x ∈ before, x.Usable live) → (∀ x ∈ after, x.Usable live) →
      after.length = operands.length →
      Ends paths limit live below (Expr.blocksOf operands) (Expr.borrowsOf below operands)
        (Walk.visitProduct backend c value before after operands) := by
  induction operands with
  | nil => exact fun _ _ _ _ _ => still (fun spare r level => ⟨r, rfl, level⟩)
  | cons e rest ih =>
    intro before after usable usable' enough
    rw [List.forall_mem_cons] at each
    cases after with
    | nil => cases enough
    | cons own after =>
      rw [List.forall_mem_cons] at usable'
      -- Each factor is multiplied into the result, its own partial product and all others.
      have register : c.value.Usable live := usable_of_ne lasting.value
      refine each.1.bind ?_
      refine (two .mul register values _).after ?_
      refine (two .mul (usable_of_ne lasting.deriv) usable'.1 _).after ?_
      refine (mulEach register _ usable).after ?_
      refine (mulEach register _ usable'.2).after ?_
      -- The partial product of this factor is one of those before the next one.
      refine ih each.2 _ _ (fun x listed => ?_) usable'.2 (by simpa using enough)
      rcases List.mem_append.mp listed with listed | listed
      · exact usable x listed
      · exact List.mem_singleton.mp listed ▸ usable'.1

/-- The block of a sum, and then those of its operands, decide about it. -/
theorem visit_add (lasting : Lasting c paths) {operands : List (Expr α)}
    (nonempty : operands.isEmpty = false)
    (each : ∀ e ∈ operands, ∀ live below,
      Ends paths limit live below e.blocks (e.borrows below) (Walk.visit backend c e)) :
    Ends paths limit live below (Expr.add operands).blocks ((Expr.add operands).borrows below)
      (Walk.visit backend c (.add operands)) := by
  rw [Walk.visit, nonempty, if_neg Bool.false_ne_true, lasting.paths]
  refine withTemp (k := 2) (fun misfit index r => ?_) (fun fit index => ?_)
  · obtain ⟨i, inside, misfit⟩ := misfit
    -- The second stretch ends where the block does, so the first one is the misfit.
    obtain rfl : i = 0 := by
      rcases (by simp only at inside; omega : i = 0 ∨ i = 1) with rfl | rfl
      · rfl
      · exact absurd misfit (lt_irrefl _)
    obtain ⟨text, stopped⟩ := slot_misfit (ε := WalkError) index misfit r
    exact ⟨text, Action.bind_error stopped⟩
  · have fits (j : Nat) (inside : j < 2) : wrapped (j + 1) paths ≤ wrapped 2 paths :=
      not_lt.mp (fun misfit => fit ⟨j, inside, misfit⟩)
    obtain ⟨value, first, found⟩ :=
      slot_fits (α := α) (ε := WalkError) index (by decide) (fits 0 (by decide))
    obtain ⟨deriv, second, found'⟩ :=
      slot_fits (α := α) (ε := WalkError) index (by decide) (fits 1 (by decide))
    have whole : PartOf index (block index paths 2).buffer := ⟨rfl, rfl⟩
    refine given found (given found' ?_)
    refine (one .zero whole.usable _).after ?_
    refine (visitSum lasting first.usable second.usable
      (fun e listed => each e listed _ _)).before ?_
    refine (two .copy first.usable (usable_of_ne lasting.value) _).after ?_
    exact two .copy second.usable (usable_of_ne lasting.deriv) _

/-- The block of a product, and then those of its factors, decide about it. -/
theorem visit_mul (lasting : Lasting c paths) {operands : List (Expr α)}
    (nonempty : operands.isEmpty = false) (few : operands.length < 2 ^ 63)
    (each : ∀ e ∈ operands, ∀ live below,
      Ends paths limit live below e.blocks (e.borrows below) (Walk.visit backend c e)) :
    Ends paths limit live below (Expr.mul operands).blocks ((Expr.mul operands).borrows below)
      (Walk.visit backend c (.mul operands)) := by
  rw [Walk.visit, nonempty, if_neg Bool.false_ne_true, lasting.paths, ofNat_add_one]
  refine withTemp (k := operands.length + 1) (fun misfit index r => ?_) (fun fit index => ?_)
  · obtain ⟨i, inside, misfit⟩ := misfit
    -- The result is looked for first, and the partial products after it.
    rcases lt_or_ge (wrapped (operands.length + 1) paths) (wrapped 1 paths) with here | fits
    · obtain ⟨text, stopped⟩ := slot_misfit (ε := WalkError) (j := 0) index here r
      exact ⟨text, Action.bind_error stopped⟩
    · -- The result fits, so some partial product does not.
      have later : i ≠ 0 := by
        rintro rfl
        exact absurd misfit (not_lt.mpr fits)
      obtain ⟨value, _, found⟩ :=
        slot_fits (α := α) (ε := WalkError) (j := 0) index (by decide) fits
      obtain ⟨text, stopped⟩ := slots_misfit (ε := WalkError) index operands.length
        1 i (by omega) (by omega) (by simp only at inside; omega) misfit r
      exact ⟨text, (Action.bind_ok (found r)).trans (Action.bind_error stopped)⟩
  · have fits (j : Nat) (inside : j < operands.length + 1) :
        wrapped (j + 1) paths ≤ wrapped (operands.length + 1) paths :=
      not_lt.mp (fun misfit => fit ⟨j, inside, misfit⟩)
    obtain ⟨value, first, found⟩ :=
      slot_fits (α := α) (ε := WalkError) index (by decide) (fits 0 (by omega))
    obtain ⟨partials, number, parts, found'⟩ := slots_fit (α := α) (ε := WalkError) index
      operands.length 1 (by omega) (fun j _ high => fits j (by omega))
    have whole : PartOf index (block index paths (operands.length + 1)).buffer := ⟨rfl, rfl⟩
    have usable : ∀ x ∈ partials,
        x.Usable (live.insert index (Int64.ofNat (operands.length + 1) * paths)) :=
      fun x listed => (parts x listed).usable
    refine given found (given found' ?_)
    refine (one (.fill Elem.one) whole.usable _).after ?_
    refine (visitProduct lasting first.usable (fun e listed => each e listed _ _) [] partials
      (by simp) usable number).before ?_
    refine (sumPartials (usable_of_ne lasting.deriv) _ usable).after ?_
    exact two .copy first.usable (usable_of_ne lasting.value) _

/-- The blocks of an accepted tree with all names bound decide about a walk over it. -/
theorem visit (lasting : Lasting c paths) (e : Expr α) :
    ∀ place live below, e.check place = .ok () →
      (∀ name ∈ e.mentioned, ∃ b, c.bindings.find? name = some b) → e.broadest ≤ 2 ^ 63 →
      Ends paths limit live below e.blocks (e.borrows below) (Walk.visit backend c e) := by
  -- More is on loan further down the tree, so the induction is for all levels.
  induction e using Expr.induction with
  | const value =>
    intro place live below _ _ _
    exact (set value (usable_of_ne lasting.value) _).after
      (one .zero (usable_of_ne lasting.deriv) _)
  | var name =>
    intro place live below _ covered _
    obtain ⟨b, bound⟩ := covered name (by simp [Expr.mentioned])
    have found (r : Recorder α) : (Action.ofExcept (c.lookup name) :
        Action (Recorder α) WalkError _) r = .ok b r := by
      rw [Context.lookup, bound]
      rfl
    refine given found ?_
    refine (two .copy (usable_of_ne (lasting.data name b bound))
      (usable_of_ne lasting.value) _).after ?_
    exact set b.seed (usable_of_ne lasting.deriv) _
  | add operands ih =>
    intro place live below accepted covered few
    obtain ⟨nonempty, each⟩ := Expr.operands_of_check (.inl accepted)
    refine visit_add lasting nonempty (fun e listed live below => ?_)
    obtain ⟨place, accepted⟩ := each e listed
    refine ih e listed place live below accepted
      (fun name named => covered name (Expr.mem_mentionedIn.mpr ⟨e, listed, named⟩)) ?_
    -- An operand has no more operands in one place than the whole tree.
    have small : 1 * (Expr.add operands).broadest ≤ 2 ^ 63 := by omega
    have others := (Expr.broadest_add_le nonempty small).2
    exact Nat.le_trans (Expr.broadest_le_broadestOf listed) (by omega)
  | mul operands ih =>
    intro place live below accepted covered few
    obtain ⟨nonempty, each⟩ := Expr.operands_of_check (.inr accepted)
    have small : 1 * (Expr.mul operands).broadest ≤ 2 ^ 63 := by omega
    obtain ⟨own, others⟩ := Expr.broadest_mul_le nonempty small
    refine visit_mul lasting nonempty (by omega) (fun e listed live below => ?_)
    obtain ⟨place, accepted⟩ := each e listed
    refine ih e listed place live below accepted
      (fun name named => covered name (Expr.mem_mentionedIn.mpr ⟨e, listed, named⟩)) ?_
    exact Nat.le_trans (Expr.broadest_le_broadestOf listed) (by omega)
  | exp exponent ih =>
    intro place live below accepted covered few
    refine (ih (place ++ [0]) live below accepted covered few).before ?_
    refine (one .exp (usable_of_ne lasting.value) _).after ?_
    exact two .mul (usable_of_ne lasting.value) (usable_of_ne lasting.deriv) _
  -- A tree with an empty place is not accepted.
  | hole => intro place live below accepted; simp [Expr.check] at accepted
  | unset kind => intro place live below accepted; simp [Expr.check] at accepted

end Ends

end Recorder

namespace Program

variable {root : Expr α} {paths limit : Int64} {seeds : NameMap α}

/-- Where variables are declared, buffers are there all the time. -/
theorem Declares.lasting {c : Context α Ref} (declares : Declares c paths seeds) :
    Recorder.Lasting c paths := by
  -- A variable with a binding was declared, so its buffer is that of a variable.
  refine ⟨declares.paths, by simp [declares.value, Ref.value], by simp [declares.deriv, Ref.deriv],
    fun name b bound => ?_⟩
  cases seeded : seeds.find? name with
  | none => simp [declares.unknown name seeded] at bound
  | some seed =>
    obtain ⟨i, _, _, known⟩ := declares.known name seed seeded
    rw [known, Option.some.injEq] at bound
    simp [← bound, Ref.var]

variable [Elem α] [Written α]

/-- The blocks of a tree decide whether it is compiled, and how the compilation ends if not. -/
theorem compile_decided (limit : Int64) (accepted : root.validate = .ok ())
    (seeded : ∀ name ∈ root.mentioned, ∃ seed, seeds.find? name = some seed) (some : 0 < paths)
    (few : root.broadest ≤ 2 ^ 63) (countable : root.blocks < 2 ^ 64) :
    ∃ ended, Decided paths limit (root.borrows 0) ended ∧
      (ended = .ok () → ∃ p, compile root paths seeds limit = .ok p) ∧
      ∀ halt, ended = .error halt → compile root paths seeds limit = .error (halt.map .walk) := by
  obtain ⟨c, declares, recorded⟩ := exists_record_eq root paths limit seeds
  -- A variable that is seeded is declared, and bound to its data.
  have bound : ∀ name ∈ root.mentioned, ∃ b, c.bindings.find? name = .some b := by
    intro name named
    obtain ⟨seed, known⟩ := seeded name named
    obtain ⟨i, _, _, found⟩ := declares.known name seed known
    exact ⟨_, found⟩
  -- Nothing is live in the beginning, and there are numbers left for all blocks.
  have start : (declared paths limit seeds).Level paths limit [] 0 (0 + root.blocks) := by
    refine ⟨rfl, (Int64.zero_mul).symm, rfl, ?_, fun entry listed => absurd listed List.not_mem_nil⟩
    show 0 + (0 + root.blocks) < 2 ^ 64
    omega
  -- The check of the context passes, and the walk over the tree is all that is left.
  have walk : Walk.generate Recorder.backend c root (declared paths limit seeds) =
      Walk.visit Recorder.backend c root (declared paths limit seeds) := by
    refine Action.bind_ok (a := ()) ?_
    rw [Context.validate, declares.paths, if_neg (Int64.not_le.mpr some)]
    rfl
  have decides : Recorder.Ends paths limit [] 0 root.blocks (root.borrows 0)
      (Walk.visit Recorder.backend c root) :=
    .visit declares.lasting root [] [] 0 accepted bound few
  obtain ⟨ended, r, ran, decided, level⟩ := decides 0 _ start
  refine ⟨ended, decided, ?_, ?_⟩
  · rintro rfl
    -- An accepted tree can be written, so the program gets its source.
    obtain ⟨text, written⟩ := root.exists_write 0 (Expr.defect?_eq_none_of_check
      (t := ⟨paths, fun _ => true, fun _ _ => none⟩) (fun _ _ => rfl) root [] 0 accepted
      (fun _ _ => rfl))
    obtain ⟨p, compiled, _⟩ := compile_ok recorded (walk.trans (Action.eq_ok_of_outcome ran))
      level.live written
    exact ⟨p, compiled⟩
  · rintro halt rfl
    exact compile_halt recorded (walk.trans (Action.eq_error_of_outcome ran))

/-- A tree is compiled if and only if all its blocks are admitted. -/
theorem exists_compile_iff (limit : Int64) (accepted : root.validate = .ok ())
    (seeded : ∀ name ∈ root.mentioned, ∃ seed, seeds.find? name = some seed) (some : 0 < paths)
    (few : root.broadest ≤ 2 ^ 63) (countable : root.blocks < 2 ^ 64) :
    (∃ p, compile root paths seeds limit = .ok p) ↔
      ∀ b ∈ root.borrows 0, b.Admitted paths limit := by
  -- The blocks decide, in the order in which they are asked for.
  obtain ⟨ended, decided, through, stops⟩ :=
    compile_decided limit accepted seeded some few countable
  refine ⟨fun ⟨p, compiled⟩ => decided.ok_iff.mp ?_, fun all => through (decided.ok_iff.mpr all)⟩
  cases ended with
  | ok _ => rfl
  | error halt => simp [stops halt rfl] at compiled

/-- A compilation that comes to a block that is not admitted stops there. -/
theorem compile_stops (limit : Int64) (accepted : root.validate = .ok ())
    (seeded : ∀ name ∈ root.mentioned, ∃ seed, seeds.find? name = some seed) (some : 0 < paths)
    (few : root.broadest ≤ 2 ^ 63) (countable : root.blocks < 2 ^ 64) {before after : List Borrow}
    {b : Borrow} (split : root.borrows 0 = before ++ b :: after)
    (passed : ∀ a ∈ before, a.Admitted paths limit) (kept : ¬ b.Admitted paths limit) :
    ∃ halt, compile root paths seeds limit = .error (halt.map .walk) ∧
      b.Stops paths limit halt := by
  -- The first block that is not admitted is where the walk ends, and so does the compilation.
  obtain ⟨ended, decided, _, stops⟩ := compile_decided limit accepted seeded some few countable
  obtain ⟨halt, rfl, here⟩ := (split ▸ decided).stops_of_first passed kept
  exact ⟨halt, stops halt rfl, here⟩

/--
The sizes of its blocks, as machine integers count them, decide whether a tree is compiled.

A tree with all variables seeded becomes a program if all blocks are admitted, and else ends at the
first that is not: with an allocation error if what is left of a size is not positive or what is
left of a sum is above the limit, and at a misuse if a stretch seems to end behind the block. So a
block of two stretches is always refused once it is too large to count, but blocks of more may wrap
around to a size that is admitted. Where everything on loan at once can be counted, only the limit
decides.
-/
theorem compile_iff_admitted (limit : Int64) (accepted : root.validate = .ok ())
    (seeded : ∀ name ∈ root.mentioned, ∃ seed, seeds.find? name = some seed) (some : 0 < paths)
    (few : root.broadest ≤ 2 ^ 63) (countable : root.blocks < 2 ^ 64) :
    ((∃ p, compile root paths seeds limit = .ok p) ↔
      ∀ b ∈ root.borrows 0, b.Admitted paths limit) ∧
    (∀ before b after, root.borrows 0 = before ++ b :: after →
      (∀ a ∈ before, a.Admitted paths limit) → ¬ b.Admitted paths limit →
      ∃ halt, compile root paths seeds limit = .error (halt.map .walk) ∧
        b.Stops paths limit halt) ∧
    (∀ b ∈ root.borrows 0, b.stretches = 2 → 2 ^ 63 ≤ 2 * paths.toInt → b.Refused paths limit) ∧
    (root.width * paths.toInt < 2 ^ 63 →
      ((∃ p, compile root paths seeds limit = .ok p) ↔
        limit ≤ 0 ∨ root.width * paths.toInt ≤ limit.toInt)) := by
  -- The last part is the first one, with the sizes taken as they are.
  have admitted := exists_compile_iff limit accepted seeded some few countable
  refine ⟨admitted, fun before b after split passed kept => ?_,
    fun b _ two uncountable => b.refused_of_two two uncountable,
    fun narrow => admitted.trans (Expr.admitted_iff_of_countable some limit narrow)⟩
  exact compile_stops limit accepted seeded some few countable split passed kept

/-- A product of two factors whose block wraps around to two elements is a misuse. -/
theorem compile_iff_admitted_misfit :
    (Expr.mul [.var "x", .const 1] : Expr Float).validate = .ok () ∧
    (NameMap.insert .empty "x" (1 : Float)).find? "x" = some 1 ∧
    ∃ text, compile (.mul [.var "x", .const 1] : Expr Float) 6148914691236517206
      (.insert .empty "x" 1) 0 = .error (.fault (.panic text)) := by
  -- The tree is accepted and its one variable has a seed.
  have valid : (Expr.mul [.var "x", .const 1] : Expr Float).validate = .ok () := rfl
  have seeded : (NameMap.insert .empty "x" (1 : Float)).find? "x" = some 1 := rfl
  have each : ∀ name ∈ (Expr.mul [.var "x", .const 1] : Expr Float).mentioned,
      ∃ seed, (NameMap.insert .empty "x" (1 : Float)).find? name = some seed := by
    intro name named
    obtain rfl : name = "x" := List.mem_singleton.mp named
    exact ⟨1, seeded⟩
  have some : 0 < (6148914691236517206 : Int64) := by decide
  obtain ⟨_, stops, _, _⟩ := compile_iff_admitted 0 valid each some (by decide) (by decide)
  -- Three stretches of so many elements wrap around to two, which memory could lend.
  have lent : ¬ Borrow.Refused 6148914691236517206 0 ⟨3, 3⟩ := by unfold Borrow.Refused; decide
  have misfit : Borrow.Misfit 6148914691236517206 ⟨3, 3⟩ := ⟨0, by decide, by decide⟩
  obtain ⟨halt, compiled, stopped⟩ := stops [] ⟨3, 3⟩ [] rfl (by simp) (fun fits => fits.2 misfit)
  cases stopped with
  | refused cause refused => exact absurd refused lent
  | misfit text _ _ => exact ⟨valid, seeded, text, compiled⟩

/-- A product of four factors whose block is too large to count is compiled nevertheless. -/
theorem oversized_compiled :
    2 ^ 63 ≤ (4 + 1) * (4611686018427387905 : Int64).toInt ∧
    ∃ p, compile (.mul [.const 1, .const 1, .const 1, .const 1] : Expr Float)
      4611686018427387905 .empty 0 = .ok p := by
  -- Nothing is mentioned, and there is one block, of five stretches.
  refine ⟨by decide, (exists_compile_iff 0 rfl (fun name named => absurd named List.not_mem_nil)
    (by decide) (by decide) (by decide)).mpr (fun b listed => ?_)⟩
  obtain rfl : b = ⟨5, 5⟩ := List.mem_singleton.mp listed
  refine ⟨by unfold Borrow.Refused; decide, ?_⟩
  rintro ⟨i, inside, misfit⟩
  revert i
  decide

end Program

end Tangent
