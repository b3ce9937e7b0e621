import Tangent.Proofs.Session.Load
import Tangent.Proofs.Session.Output

/-!
What can keep a pass from going through.

The description was accepted and its data drawn, so nothing is missing. What is left is the limit on
temporaries, and the tree alone says whether they fit. It is the same whether the expression is
evaluated at once or compiled first.
-/

namespace Tangent

/-- Whether the limit on temporaries leaves room for all that a tree borrows at once. -/
def Config.Affordable (c : Config) : Prop :=
  -- A limit of zero is none.
  c.runtime.maxTempElements = 0 ∨
    ((c.paths.toNatClampNeg * c.expression.width : Nat) : Int) ≤ c.runtime.maxTempElements.toInt

/-- A refused block, as a session that evaluates or compiles reports it. -/
inductive SessionError.Refused : SessionError → Prop where
  | evaluating (size : Int64) (cause : AllocError) : Refused (.evaluate (.walk (.alloc size cause)))
  | compiling (size : Int64) (cause : AllocError) : Refused (.compile (.walk (.alloc size cause)))

namespace Session

/--
A direction for the pass of a session: every declared variable has a seed.

A program asks for data of each variable that has a seed. Seeds for names that are not declared are
left out if the expression is compiled, since a pass never receives them: it is given the configured
seeds, or those along one of the variables.
-/
structure Directs (s : Session) (seeds : NameMap Float) : Prop where
  given : ∀ name, s.config.declared.contains name = true → seeds.contains name = true
  only : s.config.runtime.eager = false →
    ∀ name, seeds.contains name = true → s.config.declared.contains name = true

/-- The seeds that a pass takes from a direction, one for each variable with data. -/
def seedsAlong (s : Session) (seeds : NameMap Float) : NameMap Float :=
  -- What the direction does not say is zero.
  s.load.1.vars.mapValues (fun name _ => (seeds.find? name).getD 0.0)

variable {s : Session} {seeds : NameMap Float}

/-- Where the walk over the expression of a session stops, with seeds for all its variables. -/
theorem Ready.defect? (ready : s.Ready)
    (given : ∀ name, s.config.declared.contains name = true → seeds.contains name = true) :
    (s.config.Affordable →
      s.config.expression.defect? (s.load.2.terms (s.context seeds)) 0 = none) ∧
    (¬ s.config.Affordable → ∃ size cause,
      s.config.expression.defect? (s.load.2.terms (s.context seeds)) 0 =
        some (.alloc size cause)) := by
  -- Every name of the tree is declared, so it has a seed and with it a binding.
  have bound : ∀ name ∈ s.config.expression.mentioned,
      (s.load.2.terms (s.context seeds)).bound name = true := by
    intro name mentioned
    have known := given name (ready.sound.declared name mentioned)
    simpa [Host.terms, Memory.context, NameMap.contains, NameMap.find?_mapValues] using known
  have limited : ∀ inUse size, (s.load.2.terms (s.context seeds)).refusal inUse size =
      Host.refusal s.config.runtime.maxTempElements inUse size := by
    intro inUse size
    rw [← ready.laid.limit]
    rfl
  obtain ⟨limit, count, exact⟩ := exists_eq_ofNat ready.sound.limit
  rw [count] at limited
  unfold Config.Affordable
  rcases Nat.eq_zero_or_pos limit with rfl | some
  · -- Without a limit no block is refused.
    refine ⟨fun _ => ?_, fun beyond => absurd (.inl count) beyond⟩
    apply Expr.defect?_eq_none_of_check _ _ [] 0 ready.sound.tree bound
    intro inUse size
    rw [limited]
    exact Host.refusal_eq_none (by decide) inUse size
  · -- The limit is a count, and with all sums exact the budget decides.
    have bounded : limit < 2 ^ 63 := by
      have := Int64.toInt_lt s.config.runtime.maxTempElements
      omega
    have nonzero : s.config.runtime.maxTempElements ≠ 0 := by
      intro none
      rw [none, Int64.toInt_zero] at exact
      omega
    have total := ready.addressable.total
    have budgeted := Expr.budgeted_defect? (by rfl) limited some bounded _ [] 0 ready.sound.tree
      bound (Nat.zero_le limit) (by omega)
    unfold Expr.Budgeted at budgeted
    constructor
    · rintro (none | within)
      · exact absurd none nonzero
      · rw [if_pos (by omega)] at budgeted
        exact budgeted
    · intro beyond
      rw [if_neg (fun within => beyond (.inr (by omega)))] at budgeted
      exact budgeted

/-- Evaluating at once binds the variables as a walk over its memory does. -/
theorem bindings_eager (s : Session) (seeds : NameMap Float) :
    s.load.1.vars.mapValues (fun name view =>
        (⟨view, (seeds.find? name).getD 0.0⟩ : Binding Float View)) =
      (s.context (s.seedsAlong seeds)).bindings := by
  apply NameMap.eq_of_find?
  intro name
  simp only [Memory.context, seedsAlong, NameMap.find?_mapValues]
  -- A variable with data has a seed, and the data that goes with the seed is its own.
  cases found : s.load.1.vars.find? name with
  | none => rfl
  | some view => rfl

/-- A pass takes seeds for the declared variables. -/
theorem Laid.contains_seedsAlong (laid : s.Laid) (seeds : NameMap Float) (name : String) :
    (s.seedsAlong seeds).contains name = true ↔ s.config.declared.contains name = true := by
  -- Seeds are taken for the data, which there is for just the declared variables.
  simp only [seedsAlong, NameMap.contains, NameMap.find?_mapValues, Option.isSome_map]
  constructor
  · intro given
    obtain ⟨v, known⟩ := Option.isSome_iff_exists.mp given
    exact (laid.data name v known).1
  · intro declared
    exact Option.isSome_iff_exists.mpr (laid.bound name declared)

/-- A direction that names the declared variables and no others is taken as it is. -/
theorem Laid.seedsAlong_eq (laid : s.Laid)
    (given : ∀ name, s.config.declared.contains name = true → seeds.contains name = true)
    (only : ∀ name, seeds.contains name = true → s.config.declared.contains name = true) :
    s.seedsAlong seeds = seeds := by
  apply NameMap.eq_of_find?
  intro name
  rw [seedsAlong, NameMap.find?_mapValues]
  -- A variable with data is declared, so it has a seed; one with a seed is declared and has data.
  cases found : s.load.1.vars.find? name with
  | some view =>
    have known := given name (laid.data name view found).1
    obtain ⟨seed, same⟩ := Option.isSome_iff_exists.mp known
    simp [same]
  | none =>
    cases seeded : seeds.find? name with
    | none => rfl
    | some seed =>
      obtain ⟨view, there⟩ := laid.bound name (only name (by simp [NameMap.contains, seeded]))
      simp [found] at there

/-- Evaluating at once, in memory that is watched, ends as the walk over the memory does. -/
theorem Ready.evaluate (ready : s.Ready) (seeds : NameMap Float) (meter : Meter) :
    let body : Action Watched EvalError Unit :=
      Tangent.evaluate (Counted.backend (Metered.backend Host.backend)) s.config.expression
        (s.context (s.seedsAlong seeds)).bindings s.load.1.value s.load.1.deriv
    match s.config.expression.defect? (s.load.2.terms (s.context (s.seedsAlong seeds))) 0 with
    | none => ∃ c, body (.new ⟨s.load.2, meter⟩) = .ok () c ∧
        Walk.generate Host.backend (s.context (s.seedsAlong seeds)) s.config.expression s.load.2 =
          .ok () c.inner.inner
    | some cause => ∃ c, body (.new ⟨s.load.2, meter⟩) = .error (.error (.walk cause)) c := by
  have holds := ready.holds (fun name => (ready.laid.contains_seedsAlong seeds name).mp)
  have count := ready.laid.length_value
  -- The context of the evaluation is that of the walk.
  have same : evaluationContext (s.context (s.seedsAlong seeds)).bindings s.load.1.value
      s.load.1.deriv = s.context (s.seedsAlong seeds) := by
    rw [evaluationContext, count]
    rfl
  have walks := evaluate_eq_generate (by rw [same, count]; exact holds.laid)
    (Host.backend : Backend (Host Float) WalkError Float View) s.config.expression
  rw [same] at walks
  obtain ⟨t, _, ends⟩ := Walk.generate_memory holds.ready holds.laid holds.small
  rw [ready.laid.fresh.2] at ends
  -- Counting and measuring change nothing about the evaluation.
  have watched := ((Counted.watches _).evaluate s.config.expression
      (s.context (s.seedsAlong seeds)).bindings s.load.1.value s.load.1.deriv).trans
    ((Metered.watches Host.backend).evaluate _ _ _ _)
  rw [walks] at watched
  intro body
  split
  · rename_i none
    rw [none] at ends
    obtain ⟨c, ran, host⟩ :=
      watched.exists_ok (t := .new ⟨s.load.2, meter⟩) (Action.adapt_ok ends.1)
    exact ⟨c, ran, ends.1.trans (congrArg (EStateM.Result.ok ()) host.symm)⟩
  · rename_i cause defect
    rw [defect] at ends
    obtain ⟨c, stopped, _⟩ :=
      watched.exists_error (t := .new ⟨s.load.2, meter⟩) (Action.adapt_error ends)
    exact ⟨c, stopped⟩

/--
A pass along a direction that goes through if the temporaries fit, and is refused a block otherwise.

If it goes through, it answers with what a walk over the expression leaves in the registers.
-/
def Fares (s : Session) (seeds : NameMap Float) (task : Task (Array Float × Array Float))
    (w : World) : Prop :=
  (s.config.Affordable → ∃ h w',
    Walk.generate Host.backend (s.context (s.seedsAlong seeds)) s.config.expression s.load.2 =
      .ok () h ∧
    task w = .ok (registers s.load.1 h) w') ∧
  (¬ s.config.Affordable → ∃ cause w', task w = .error (.error cause) w' ∧ cause.Refused)

/-- Evaluating at once answers if the temporaries fit, and prints nothing. -/
theorem Ready.exists_answers_eager (ready : s.Ready) (seeds : NameMap Float)
    (affordable : s.config.Affordable) :
    ∃ h, Walk.generate Host.backend (s.context (s.seedsAlong seeds)) s.config.expression s.load.2 =
        .ok () h ∧
      ∀ w, Task.Answers (s.passEager seeds) w (registers s.load.1 h) "" := by
  -- Whatever was measured before, the walk goes through and leaves the same memory.
  have evaluated (meter : Meter) := ready.evaluate seeds meter
  rw [(ready.defect? (fun name => (ready.laid.contains_seedsAlong seeds name).mpr)).1
    affordable] at evaluated
  obtain ⟨c₀, _, walked⟩ := evaluated .new
  refine ⟨c₀.inner.inner, walked, fun w => ?_⟩
  obtain ⟨c, ran, rewalked⟩ := evaluated w.meter
  obtain ⟨_, same⟩ := EStateM.Result.ok.inj (rewalked.symm.trans walked)
  rw [← same]
  unfold Session.passEager
  simp only [bindings_eager]
  -- After the walk the run is counted and told of.
  apply (Task.answers_measured ran).andThen
  intro w
  apply (Task.answers_modify (by rfl)).andThen
  intro w
  apply (s.answers_log _ _ _ w).andThen
  intro w
  exact Task.answers_pure _ w

/-- Evaluating at once is refused a block if the temporaries do not fit. -/
theorem Ready.refused_eager (ready : s.Ready) (seeds : NameMap Float)
    (unaffordable : ¬ s.config.Affordable) (w : World) :
    ∃ cause w', s.passEager seeds w = .error (.error cause) w' ∧ cause.Refused := by
  have evaluated := ready.evaluate seeds w.meter
  obtain ⟨size, cause, defect⟩ :=
    (ready.defect? (fun name => (ready.laid.contains_seedsAlong seeds name).mpr)).2 unaffordable
  -- The walk stops at the block, and the run is counted as failed.
  rw [defect] at evaluated
  obtain ⟨c, stopped⟩ := evaluated
  unfold Session.passEager
  simp only [bindings_eager]
  exact ⟨_, _, (Action.bind_ok (measured_error stopped)).trans rfl, .evaluating size cause⟩

/-- The expression is compiled if its temporaries fit, and the program then runs. -/
theorem Ready.compile (ready : s.Ready)
    (given : ∀ name, s.config.declared.contains name = true → seeds.contains name = true)
    (only : ∀ name, seeds.contains name = true → s.config.declared.contains name = true) :
    (s.config.Affordable → ∃ p,
      Program.compile s.config.expression s.config.paths seeds s.config.runtime.maxTempElements =
        .ok p ∧
      ∃ h, Walk.generate Host.backend (s.context seeds) s.config.expression s.load.2 = .ok () h ∧
      ∀ meter, ∃ m,
        Machine.run Host.kernels p s.load.1 ⟨s.load.2, meter, none, []⟩ = .ok () m ∧
          m.host = h) ∧
    (¬ s.config.Affordable → ∃ size cause,
      Program.compile s.config.expression s.config.paths seeds s.config.runtime.maxTempElements =
        .error (.error (.walk (.alloc size cause)))) := by
  have holds := ready.holds only
  obtain ⟨within, beyond⟩ := ready.defect? given
  -- The walk over memory stops at the defect of the tree, and so does the one that is counted.
  have counted := (Counted.watches Host.backend).generate (s.context seeds) s.config.expression
  obtain ⟨t, _, ends⟩ := Walk.generate_memory holds.ready holds.laid holds.small
  rw [ready.laid.fresh.2] at ends
  have ended (meter : Meter) := holds.compile_or_perform
    (show (⟨s.load.2, meter, none, []⟩ : Machine Float).host = s.load.2 from rfl) rfl rfl
  rw [← ready.sound.paths, ready.laid.limit] at ended
  constructor
  · intro affordable
    rw [within affordable] at ends
    obtain ⟨c, walked, inner⟩ := counted.exists_ok (t := Counted.new s.load.2) ends.1
    -- A walk that gets through is compiled, to the same program whatever was measured before.
    have runs (meter : Meter) : ∃ p m, Program.compile s.config.expression s.config.paths seeds
          s.config.runtime.maxTempElements = .ok p ∧
        Machine.run Host.kernels p s.load.1 ⟨s.load.2, meter, none, []⟩ = .ok () m ∧
        m.host = c.inner := by
      rcases ended meter with ⟨_, _, _, stopped, _⟩ | ⟨_, p, m, same, compiled, ran, host, _⟩
      · rw [walked] at stopped
        cases stopped
      · rw [walked] at same
        cases same
        exact ⟨p, m, compiled, ran, host⟩
    obtain ⟨p, _, compiled, _⟩ := runs .new
    -- The program is the same for all measurements, since compiling does not look at them.
    refine ⟨p, compiled, c.inner, inner ▸ ends.1, fun meter => ?_⟩
    obtain ⟨q, m, recompiled, ran⟩ := runs meter
    obtain rfl := Except.ok.inj (compiled.symm.trans recompiled)
    exact ⟨m, ran⟩
  · intro unaffordable
    obtain ⟨size, cause, defect⟩ := beyond unaffordable
    rw [defect] at ends
    obtain ⟨c, walked, _⟩ := counted.exists_error (t := Counted.new s.load.2) ends
    rcases ended .new with ⟨_, other, _, stopped, uncompiled, alike⟩ | ⟨_, _, _, ran, _⟩
    · -- The recording refuses a block of the same size, in its own words.
      rw [walked] at stopped
      cases stopped
      cases other with
      | alloc => exact ⟨_, _, uncompiled⟩
      | _ => cases alike
    · rw [walked] at ran
      cases ran

/-- Compiling and running answers if the temporaries fit, and prints the listing if asked to. -/
theorem Ready.exists_answers_compiled (ready : s.Ready) (directs : s.Directs seeds)
    (compiled : s.config.runtime.eager = false) (own : s.program? = none)
    (affordable : s.config.Affordable) :
    ∃ h p, Walk.generate Host.backend (s.context (s.seedsAlong seeds)) s.config.expression
        s.load.2 = .ok () h ∧
      ∀ listing w, Task.Answers (s.pass seeds listing) w (registers s.load.1 h)
        (if listing then Program.listing 0.0 p else "") := by
  obtain ⟨within, _⟩ := ready.compile directs.given (directs.only compiled)
  obtain ⟨p, made, h, walked, runs⟩ := within affordable
  -- The direction has seeds for the declared variables only, so it is taken as it is.
  rw [ready.laid.seedsAlong_eq directs.given (directs.only compiled)]
  exact ⟨h, p, walked, answers_pass compiled (.inr ⟨own, made⟩) (answers_passProgram runs)⟩

/-- Compiling is refused a block if the temporaries do not fit. -/
theorem Ready.refused_compiled (ready : s.Ready) (directs : s.Directs seeds)
    (compiled : s.config.runtime.eager = false) (own : s.program? = none)
    (unaffordable : ¬ s.config.Affordable) (listing : Bool) (w : World) :
    ∃ cause w', s.pass seeds listing w = .error (.error cause) w' ∧ cause.Refused := by
  obtain ⟨_, beyond⟩ := ready.compile directs.given (directs.only compiled)
  obtain ⟨size, cause, unmade⟩ := beyond unaffordable
  -- Nothing is printed or run before the program is there.
  have along : s.compileAlong seeds w =
      .error (.error (.compile (.walk (.alloc size cause)))) w := by
    unfold compileAlong
    rw [unmade]
    rfl
  refine ⟨_, w, ?_, .compiling size cause⟩
  unfold Session.pass
  simp only [compiled, own, Bool.false_eq_true, if_false]
  exact Action.bind_error along

/-- The configured seeds are declared with the variables. -/
theorem contains_seeds (s : Session) (name : String) :
    s.config.seeds.contains name = s.config.declared.contains name := by
  -- A seed is read from each declaration.
  simp [Config.seeds, NameMap.contains, NameMap.find?_mapValues]

/-- The configured seeds are a direction. -/
theorem directs_seeds (s : Session) : s.Directs s.config.seeds := by
  -- The names of seeds are those of the declarations.
  constructor
  · intro name declared
    rw [s.contains_seeds, declared]
  · intro _ name given
    rw [← s.contains_seeds, given]

/-- One seed for a variable of the expression, and none for the others, is a direction. -/
theorem Ready.directs_alongVariable (ready : s.Ready) (drawn : s.data = s.config.inputs)
    {name : String} (named : name ∈ s.config.names) : s.Directs (s.alongVariable name) := by
  have given (other : String) : (s.alongVariable name).contains other = true ↔
      name = other ∨ ∃ data, s.config.inputs.find? other = some data := by
    rw [alongVariable, drawn, NameMap.contains, NameMap.find?_insert, ← Option.isSome_iff_exists]
    split <;> simp [*, NameMap.find?_mapValues]
  -- Data was drawn for all that is declared and for nothing else.
  constructor
  · intro other declared
    obtain ⟨data, drawn, _⟩ := Config.exists_input declared
    exact (given other).mpr (.inr ⟨data, drawn⟩)
  · intro _ other seeded
    rcases (given other).mp seeded with rfl | ⟨data, drawn⟩
    · exact ready.declared named
    · exact (Config.declared_of_input drawn).1

/--
A pass answers if the temporaries fit, at once as well as compiled.

The answer is what a walk leaves in the registers, and without a listing nothing is printed.
-/
theorem Ready.exists_answers (ready : s.Ready) (own : s.program? = none)
    (directs : s.Directs seeds) (affordable : s.config.Affordable) :
    ∃ h, Walk.generate Host.backend (s.context (s.seedsAlong seeds)) s.config.expression s.load.2 =
        .ok () h ∧
      ∀ listing, ∃ text, (listing = false → text = "") ∧
        ∀ w, Task.Answers (s.pass seeds listing) w (registers s.load.1 h) text := by
  cases eager : s.config.runtime.eager with
  | true =>
    -- Nothing is compiled, so there is no listing.
    obtain ⟨h, walked, answers⟩ := ready.exists_answers_eager seeds affordable
    refine ⟨h, walked, fun listing => ⟨"", fun _ => rfl, fun w => ?_⟩⟩
    unfold Session.pass
    simp only [eager, if_true]
    exact answers w
  | false =>
    obtain ⟨h, p, walked, answers⟩ := ready.exists_answers_compiled directs eager own affordable
    exact ⟨h, walked, fun listing => ⟨_, fun unlisted => by simp [unlisted], answers listing⟩⟩

/-- A pass fares as the temporaries fit, at once as well as compiled. -/
theorem Ready.pass (ready : s.Ready) (own : s.program? = none) (directs : s.Directs seeds)
    (listing : Bool) (w : World) : s.Fares seeds (s.pass seeds listing) w := by
  constructor
  · intro affordable
    obtain ⟨h, walked, answers⟩ := ready.exists_answers own directs affordable
    obtain ⟨_, _, answered⟩ := answers listing
    obtain ⟨w', passed, _⟩ := answered w
    exact ⟨h, w', walked, passed⟩
  · intro unaffordable
    -- The block is refused while evaluating, or while compiling.
    cases eager : s.config.runtime.eager with
    | true =>
      unfold Session.pass
      simp only [eager, if_true]
      exact ready.refused_eager seeds unaffordable w
    | false => exact ready.refused_compiled directs eager own unaffordable listing w

/--
What was accepted can only fail for its limit on temporaries.

A pass of a session whose data was drawn goes through if the limit leaves room for all temporaries
that are in use at once, and is refused a block otherwise, at once as well as compiled. This holds
along the configured seeds, along every variable, and along any other direction.
-/
theorem pass_fares_by_limit (s : Session) (valid : s.config.validate = .ok ())
    (addressable : s.config.Addressable) (drawn : s.data = s.config.inputs)
    (own : s.program? = none) :
    s.Directs s.config.seeds ∧
    (∀ name ∈ s.config.names, s.Directs (s.alongVariable name)) ∧
    ∀ seeds, s.Directs seeds → ∀ listing w, s.Fares seeds (s.pass seeds listing) w := by
  -- All depends on being ready, which the check and the drawn data make of a session.
  have ready := ready_of_validate valid addressable drawn
  refine ⟨s.directs_seeds, ?_, ?_⟩
  · intro name named
    exact ready.directs_alongVariable drawn named
  · intro seeds directs listing w
    exact ready.pass own directs listing w

/-- A session for the demonstration, with its data drawn and a limit on temporaries. -/
def demoSession (eager : Bool) (limit : Int64) : Session :=
  let config : Config := { Config.demo with runtime := ⟨eager, 0, limit, 4, "info"⟩ }
  ⟨.plain, config, .info, false, "", none, config.inputs⟩

/-- Whatever its limit is, its blocks can be lent and its temporaries be numbered. -/
theorem addressable_demoSession (eager : Bool) (limit : Int64) :
    (demoSession eager limit).config.Addressable :=
  -- The limit is no part of what makes a configuration addressable.
  have demo : Config.demo.Addressable := ⟨by decide, by decide, by decide, by decide⟩
  ⟨demo.blocks, demo.total, demo.temps, demo.names⟩

/-- The demonstration has seven stretches of ten thousand elements on loan at once. -/
theorem pass_fares_by_limit_demo :
    (∃ found w, (demoSession false 70000).pass (demoSession false 70000).config.seeds false
      (.start .empty) = .ok found w) ∧
    ∃ cause w, (demoSession true 69999).pass (demoSession true 69999).config.seeds false
      (.start .empty) = .error (.error cause) w ∧ cause.Refused := by
  -- With one element less than its stretches take the demonstration is refused.
  constructor
  · obtain ⟨directs, _, fares⟩ := pass_fares_by_limit (demoSession false 70000)
      rfl (addressable_demoSession _ _) (by simp only [demoSession]) rfl
    obtain ⟨h, w, _, answered⟩ := (fares _ directs false (.start .empty)).1 (.inr (by decide))
    exact ⟨_, w, answered⟩
  · obtain ⟨directs, _, fares⟩ := pass_fares_by_limit (demoSession true 69999)
      rfl (addressable_demoSession _ _) (by simp only [demoSession]) rfl
    apply (fares _ directs false _).2
    unfold Config.Affordable
    decide

end Session

end Tangent
