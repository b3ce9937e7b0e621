import Tangent.Proofs.Session.Gradient
import Tangent.Proofs.Walk.Linear

/-!
Evaluating one tree along several directions.

Whatever the seeds are, the values come out the same, so the pass along any variable may report
them. The derivatives are linear in the seeds: those along the configured direction are put together
from the ones along single variables.
-/

namespace Tangent

variable {α : Type}

/--
A tree to be evaluated, and memory with the registers and the data of its variables.

All buffers lie apart and are long enough, nothing is on loan yet, and what the tree borrows can be
addressed and numbered.
-/
structure Memory.Sampled (memory : Memory) (h : Host α) (root : Expr α) : Prop where
  ready : h.Ready
  fresh : h.live = [] ∧ h.liveElements = 0
  positive : 0 < memory.value.length
  value : h.store.Buffer memory.value memory.value.length
  deriv : h.store.Buffer memory.deriv memory.value.length
  apart : memory.value.Disjoint memory.deriv
  data : ∀ name v, memory.vars.find? name = some v → h.store.Buffer v memory.value.length ∧
    v.Disjoint memory.value ∧ v.Disjoint memory.deriv
  small : memory.value.length * max 1 root.broadest ≤ Host.room
  countable : memory.vars.entries.length ≤ 2 ^ 63 ∧ root.blocks ≤ 2 ^ 63
  accepted : root.validate = .ok ()
  bound : ∀ name ∈ root.mentioned, memory.vars.contains name = true

/-- Seeds for the variables that have data, and for no others. -/
def Memory.Seeded (memory : Memory) (seeds : NameMap α) : Prop :=
  ∀ name, seeds.contains name = memory.vars.contains name

/-- What the data of a name holds on a path. -/
def Memory.datum [Elem α] (memory : Memory) (s : Store α) (p : Nat) (name : String) : α :=
  ((memory.vars.find? name).bind (fun v => s.read? v p)).getD Elem.zero

/-- The two ways to evaluate a tree. -/
inductive Mode where
  | direct
  | compiled

/-- Memory before and after a tree was evaluated in it along a direction. -/
inductive Evaluates [Elem α] [Written α] (root : Expr α) (memory : Memory) (seeds : NameMap α)
    (h : Host α) : Mode → Host α → Prop where
  | direct {h' : Host α}
    (ran : evaluate Host.backend root (memory.context memory.value.length seeds).bindings
      memory.value memory.deriv h = .ok () h') : Evaluates root memory seeds h .direct h'
  | compiled {p : Program α} {kernels : MachineKernels α} {m : Machine α}
    (made : Program.compile root (Int64.ofNat memory.value.length) seeds h.limit = .ok p)
    (linked : Host.symbols.link = .ok kernels)
    (ran : Machine.run kernels p memory (Machine.new h none) = .ok () m) :
    Evaluates root memory seeds h .compiled m.host

/-- The direction along one of several names. -/
def alongName {ν : Type} [Elem α] (names : NameMap ν) (name : String) : NameMap α :=
  (names.mapValues (fun _ _ => Elem.zero)).insert name Elem.one

namespace Memory

variable {memory : Memory} {h h' : Host α} {root : Expr α} {seeds : NameMap α} {mode : Mode}

/-- Memory with data for the variables is memory for a walk with seeds for them. -/
theorem Sampled.holds (sampled : memory.Sampled h root) (seeded : memory.Seeded seeds) :
    memory.Holds h memory.value.length seeds root where
  ready := sampled.ready
  fresh := sampled.fresh
  present name given := by
    rw [seeded name] at given
    exact Option.isSome_iff_exists.mp given
  laid :=
    { paths := rfl
      positive := sampled.positive
      value := sampled.value
      deriv := sampled.deriv
      apart := sampled.apart
      data := by
        intro name b found
        -- A binding is made of a seed and of the data that goes with it.
        simp only [context, NameMap.find?_mapValues, Option.map_eq_some_iff] at found
        obtain ⟨seed, given, rfl⟩ := found
        have known := seeded name
        rw [NameMap.contains, given, Option.isSome_some] at known
        obtain ⟨v, there⟩ := Option.isSome_iff_exists.mp known.symm
        rw [there]
        exact sampled.data name v there }
  small := sampled.small
  countable := by
    -- There are no more seeds than variables with data.
    refine ⟨Nat.le_trans (NameMap.length_le_of_contains ?_) sampled.countable.1,
      sampled.countable.2⟩
    intro name given
    rw [← seeded name, given]

/-- A walk can be started in such memory. -/
theorem Sampled.setup (sampled : memory.Sampled h root) (seeded : memory.Seeded seeds) :
    Walk.Setup h (memory.context memory.value.length seeds) memory.value.length root := by
  -- The names of the tree are bound, and those that are bound have a seed.
  have holds := sampled.holds seeded
  obtain ⟨names, listed⟩ := Expr.exists_vars sampled.accepted
  refine ⟨holds.ready, holds.laid, holds.small, sampled.accepted, names, listed, ?_⟩
  intro name among
  have known := sampled.bound name ((Expr.mem_vars listed name).mp among)
  rw [← seeded name] at known
  simpa [context, NameMap.contains, NameMap.find?_mapValues] using known

/-- The input of a name is what its data holds, with its seed. -/
theorem Seeded.input [Elem α] (seeded : memory.Seeded seeds) (n : Nat) (s : Store α) (p : Nat)
    (name : String) :
    (memory.context n seeds).input s p name =
      (memory.datum s p name, (seeds.find? name).getD Elem.zero) := by
  have known := seeded name
  simp only [NameMap.contains] at known
  simp only [Context.input, context, datum, NameMap.find?_mapValues]
  -- A name has a seed and data, or neither.
  cases given : seeds.find? name with
  | none =>
    rw [given, Option.isSome_none] at known
    rw [Option.isSome_eq_false_iff.mp known.symm |> Option.isNone_iff_eq_none.mp]
    rfl
  | some seed =>
    rw [given, Option.isSome_some] at known
    obtain ⟨v, there⟩ := Option.isSome_iff_exists.mp known.symm
    simp [there]

variable [Elem α]

/-- Evaluating in memory with seeds is walking over it. -/
theorem Holds.evaluate_eq (holds : memory.Holds h memory.value.length seeds root) :
    evaluate Host.backend root (memory.context memory.value.length seeds).bindings memory.value
        memory.deriv =
      (Walk.generate Host.backend (memory.context memory.value.length seeds) root).adapt .walk := by
  -- The context of the evaluation is that of the walk.
  have laid : (evaluationContext (memory.context memory.value.length seeds).bindings memory.value
      memory.deriv).Laid memory.value.length h.store := holds.laid
  exact evaluate_eq_generate laid Host.backend root

/-- A walk leaves the duals of its tree in the registers. -/
theorem Sampled.leaves (sampled : memory.Sampled h root) (seeded : memory.Seeded seeds)
    (walked : Walk.generate Host.backend (memory.context memory.value.length seeds) root h =
      .ok () h') {p : Nat} (below : p < memory.value.length) :
    let dual := root.dual (fun name =>
      (memory.datum h.store p name, (seeds.find? name).getD Elem.zero))
    h'.store.read? memory.value p = some dual.1 ∧ h'.store.read? memory.deriv p = some dual.2 := by
  have left := ((sampled.setup seeded).leaves walked).2
  have held := And.intro (left.value.holds p below) (left.deriv.holds p below)
  -- The inputs of the walk are the data with their seeds.
  have same := funext (seeded.input memory.value.length h.store p)
  simp only [same] at held
  exact held

/-- The direction along a name has a seed for each of the names. -/
theorem seeded_alongName {name : String} (known : memory.vars.contains name = true) :
    memory.Seeded (alongName memory.vars name : NameMap α) := by
  -- The name itself has a seed since it is known, and so has every other one that is.
  intro other
  rw [alongName, NameMap.contains, NameMap.find?_insert, NameMap.find?_mapValues]
  split
  · rename_i same
    rw [← same, known, Option.isSome_some]
  · rw [Option.isSome_map, NameMap.contains]

variable [Written α]

/-- Both ways to evaluate a tree end where the walk over it does. -/
theorem Sampled.walks (sampled : memory.Sampled h root) (seeded : memory.Seeded seeds)
    (evaluated : Evaluates root memory seeds h mode h') :
    Walk.generate Host.backend (memory.context memory.value.length seeds) root h = .ok () h' := by
  have holds := sampled.holds seeded
  cases evaluated with
  | direct ran =>
    rw [holds.evaluate_eq] at ran
    exact Action.ok_of_adapt ran
  | compiled made linked ran =>
    -- The program repeats the walk that it was recorded from, with its calls counted.
    obtain rfl := Except.ok.inj (Host.link_symbols.symm.trans linked)
    rcases holds.compile_or_run with ⟨_, _, _, _, unmade, _⟩ | ⟨c, q, walked, remade, repeats⟩
    · cases made.symm.trans unmade
    · obtain rfl := Except.ok.inj (made.symm.trans remade)
      obtain ⟨m, reran, host, _⟩ := repeats.runs
      cases ran.symm.trans reran
      have plain := (Counted.watches Host.backend).generate
        (memory.context memory.value.length seeds) root (Counted.new h)
      rw [walked] at plain
      rw [host]
      exact plain

end Memory

section Ring

variable {R : Type} [CommRing R] {memory : Memory} {s t : NameMap R}

variable [DecidableEq R] (exp : R → R)

/-- The seed that the direction along a name has for another. -/
theorem getD_alongName (memory : Memory) (name : String) :
    (fun other => ((@alongName R View (Elem.ofRing exp) memory.vars name).find? other).getD 0) =
      Pi.single name 1 := by
  -- The direction is zero everywhere and then one at the name.
  let _ := Elem.ofRing exp
  funext other
  rw [alongName, NameMap.find?_insert, NameMap.find?_mapValues]
  by_cases same : name = other
  · subst same
    rw [if_pos rfl, Pi.single_eq_same]
    rfl
  · rw [if_neg same, Pi.single_eq_of_ne (Ne.symm same)]
    cases memory.vars.find? other <;> rfl

variable [Written R] {h h' : Host R} {root : Expr R} {mode : Mode}

/-- The derivative that an evaluation over a ring leaves on a path. -/
theorem Memory.Sampled.slope (sampled : memory.Sampled h root) (seeded : memory.Seeded s)
    (evaluated : @Evaluates R (Elem.ofRing exp) _ root memory s h mode h') {p : Nat}
    (below : p < memory.value.length) :
    h'.store.read? memory.deriv p =
      some (root.slope exp (@datum R (Elem.ofRing exp) memory h.store p)
        (fun name => (s.find? name).getD 0)) := by
  -- Over a ring the derivative of the dual is the slope of the tree.
  let _ := Elem.ofRing exp
  have held := (sampled.leaves seeded (sampled.walks seeded evaluated) below).2
  rw [Expr.dual_ofRing] at held
  exact held

/-- The derivative along a direction is put together from those along single variables. -/
theorem Memory.Sampled.gradient (sampled : memory.Sampled h root) (seeded : memory.Seeded s)
    {names : List String} (listed : root.vars = .ok names)
    (evaluated : @Evaluates R (Elem.ofRing exp) _ root memory s h mode h') {modes : String → Mode}
    {g : String → Host R}
    (along : ∀ name ∈ names, @Evaluates R (Elem.ofRing exp) _ root memory
      (@alongName R View (Elem.ofRing exp) memory.vars name) h (modes name) (g name))
    {p : Nat} (below : p < memory.value.length) :
    ∃ d : String → R,
      (∀ name ∈ names, (g name).store.read? memory.deriv p = some (d name)) ∧
      h'.store.read? memory.deriv p =
        some ((names.map (fun name => (s.find? name).getD 0 * d name)).sum) := by
  let _ := Elem.ofRing exp
  -- Along a single variable the derivative is the partial one.
  refine ⟨fun name => root.slope exp (memory.datum h.store p) (Pi.single name 1), ?_, ?_⟩
  · intro name among
    have known := sampled.bound name ((Expr.mem_vars listed name).mp among)
    rw [sampled.slope exp (seeded_alongName known) (along name among) below, getD_alongName]
  · rw [sampled.slope exp seeded evaluated below]
    apply congrArg some
    exact Expr.slope_eq_sum exp _ (Expr.nodup_vars listed) root
      (fun name named => (Expr.mem_vars listed name).mpr named)

end Ring

namespace Session

variable {s : Session} {seeds other : NameMap Float}

/-- The memory of a pass has the data of all declared variables. -/
theorem Ready.sampled (ready : s.Ready) : s.load.1.Sampled s.load.2 s.config.expression := by
  -- With a seed for every variable all data is part of the layout.
  have seeded := ready.laid.contains_seedsAlong .empty
  have holds := ready.holds (fun name => (seeded name).mp)
  rw [← ready.laid.length_value] at holds
  have data := holds.laid.data
  refine ⟨holds.ready, holds.fresh, holds.laid.positive, holds.laid.value, holds.laid.deriv,
    holds.laid.apart, ?_, holds.small, ⟨?_, holds.countable.2⟩, ready.sound.tree, ?_⟩
  · intro name v found
    refine data name ⟨v, 0.0⟩ ?_
    simp [Memory.context, seedsAlong, NameMap.find?_mapValues, found]
  · refine Nat.le_trans (NameMap.length_le_of_contains ?_) ready.addressable.names
    intro name known
    obtain ⟨v, found⟩ := Option.isSome_iff_exists.mp known
    exact (ready.laid.data name v found).1
  · intro name mentioned
    exact Option.isSome_iff_exists.mpr
      (ready.laid.bound name (ready.sound.declared name mentioned))

/-- A pass that goes through answers with what a walk leaves in the registers. -/
theorem Ready.walked (ready : s.Ready) (own : s.program? = none) (directs : s.Directs seeds)
    {listing : Bool} {w w' : World} {found : Array Float × Array Float}
    (ran : s.pass seeds listing w = .ok found w') :
    ∃ h, Walk.generate Host.backend
        (s.load.1.context s.load.1.value.length (s.seedsAlong seeds)) s.config.expression s.load.2 =
          .ok () h ∧
      found = registers s.load.1 h := by
  obtain ⟨within, beyond⟩ := ready.pass own directs listing w
  -- A session that cannot afford its tree has no answer.
  by_cases affordable : s.config.Affordable
  · obtain ⟨h, _, walked, answered⟩ := within affordable
    rw [ready.laid.length_value]
    exact ⟨h, walked, (EStateM.Result.ok.inj (ran.symm.trans answered)).1⟩
  · obtain ⟨_, _, refused, _⟩ := beyond affordable
    cases ran.symm.trans refused

/-- How a session evaluates its expression. -/
def mode (s : Session) : Mode := if s.config.runtime.eager then .direct else .compiled

/--
What the commands of a session report on memory that evaluations left.

A run answers and reports the registers of one evaluation, and a gradient those of an evaluation for
each variable of the expression, in their order. Both succeed if no measurements are to be written.
-/
structure Reports (s : Session) (whole : Host Float) (single : String → Host Float) : Prop where
  pass : ∀ listing w, ∃ w', s.pass s.config.seeds listing w = .ok (registers s.load.1 whole) w'
  run : (s.listing && s.config.runtime.eager) = false →
    ∃ text, (s.listing = false → text = "") ∧
      ∀ w, (s.run.outcome w).2.out = w.out ++ (text ++ s.report (registers s.load.1 whole)) ∧
        (s.metricsPath = "" → (s.run.outcome w).1 = .ok ())
  partials : ∀ w, ∃ w', s.partials s.config.names w =
    .ok (s.config.names.map fun name => (name, registers s.load.1 (single name))) w'
  gradient : s.listing = false → ∀ w, (s.gradient.outcome w).2.out =
      w.out ++ s.gradientReport (registers s.load.1 whole)
        (s.config.names.map fun name => (name, registers s.load.1 (single name))) ∧
    (s.metricsPath = "" → (s.gradient.outcome w).1 = .ok ())

end Session

end Tangent
