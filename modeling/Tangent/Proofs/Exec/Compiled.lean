import Tangent.Proofs.Evaluate
import Tangent.Proofs.Exec.Mirror
import Tangent.Proofs.Program.Compile
import Tangent.Proofs.Walk.Transparent

/-!
A compiled tree computes what an evaluation of the tree computes.

A program that is run on memory does to the memory what the walk does that it was recorded from. A
walk on other memory leaves the same numbers, since these are the duals of the tree.
-/

namespace Tangent

variable {α : Type}

/-- What a walk over memory with seeds for its variables works on. -/
def Memory.context (memory : Memory) (n : Nat) (seeds : NameMap α) : Context α View :=
  ⟨Int64.ofNat n, memory.value, memory.deriv,
    seeds.mapValues (fun name seed => ⟨(memory.vars.find? name).getD .empty, seed⟩)⟩

/--
Memory for a compiled tree: data for every variable, and nothing on loan yet.

Variables and blocks have to be countable, as they are numbered.
-/
structure Memory.Holds (memory : Memory) (g : Host α) (n : Nat) (seeds : NameMap α)
    (root : Expr α) : Prop where
  ready : g.Ready
  fresh : g.live = [] ∧ g.liveElements = 0
  present : ∀ name, seeds.contains name = true → ∃ v, memory.vars.find? name = some v
  laid : (memory.context n seeds).Laid n g.store
  small : n * max 1 root.broadest ≤ Host.room
  countable : seeds.entries.length ≤ 2 ^ 63 ∧ root.blocks ≤ 2 ^ 63

namespace Memory.Holds

variable {memory : Memory} {g : Host α} {n : Nat} {seeds : NameMap α} {root : Expr α}

/-- The paths can be counted. -/
theorem few (holds : memory.Holds g n seeds root) : n ≤ Host.room :=
  -- Every block has at least one stretch, and those of all paths have room.
  Nat.le_trans (Nat.le_mul_of_pos_right n (by omega)) holds.small

/-- The elements of every block can be counted. -/
theorem broad (holds : memory.Holds g n seeds root) : n * root.broadest ≤ Host.room :=
  -- The bound is on the larger of the two.
  (Expr.le_of_mul_max_le holds.small).2

/-- Every variable has data for all paths. -/
theorem data (holds : memory.Holds g n seeds root) {name : String} {seed : α}
    (found : seeds.find? name = some seed) :
    ∃ v, memory.vars.find? name = some v ∧ n ≤ v.length ∧
      (memory.context n seeds).bindings.find? name = some ⟨v, seed⟩ := by
  -- The layout speaks of all bindings, and this is the binding of the name.
  obtain ⟨v, known⟩ := holds.present name (by simp [NameMap.contains, found])
  have bound : (memory.context n seeds).bindings.find? name = some ⟨v, seed⟩ := by
    simp [Memory.context, NameMap.find?_mapValues, found, known]
  exact ⟨v, known, (holds.laid.data name _ bound).1.long, bound⟩

/-- Every safe program for the paths and the variables can run on the memory. -/
theorem prepare [Written α] (holds : memory.Holds g n seeds root) :
    ∃ views : List View, (∀ i : Nat, views[i]? = seeds.names[i]?.bind memory.vars.find?) ∧
      ∀ p : Program α, p.paths = Int64.ofNat n → p.vars = seeds.names → p.validate = .ok () →
        Machine.prepare p memory = .ok ⟨memory.value, memory.deriv, views⟩ := by
  have count := Host.toInt_ofNat_of_le_room holds.few
  have there : ∀ name ∈ seeds.names, ∃ v, memory.vars.find? name = some v ∧
      (Int64.ofNat n).toInt ≤ v.length := by
    intro name listed
    obtain ⟨seed, found⟩ := (seeds.mem_names_iff name).mp listed
    obtain ⟨v, known, long, _⟩ := holds.data found
    exact ⟨v, known, by omega⟩
  obtain ⟨views, bindVars, bound⟩ := Frame.bindVars_ok there
  -- Which program it is matters for its paths and variables only.
  refine ⟨views, bound, fun p paths vars safe => ?_⟩
  have value : n ≤ memory.value.length := holds.laid.value.long
  have deriv : n ≤ memory.deriv.length := holds.laid.deriv.long
  refine Machine.prepare_ok safe ?_ ?_ ?_
  · rw [paths]
    omega
  · rw [paths]
    omega
  · rw [paths, vars]
    exact bindVars

end Memory.Holds

namespace Mirror

variable [Elem α] [Written α] {g : Host α} {f : Frame} {n : Nat} {seeds : NameMap α}

/-- Before the first step nothing is on loan and nothing is recorded. -/
theorem start {m₀ : Machine α} (host : m₀.host = g) (patient : m₀.patience = none)
    (unused : m₀.temps = []) (fresh : g.live = [] ∧ g.liveElements = 0) (small : n < 2 ^ 63)
    {loans : Nat} (few : loans ≤ 2 ^ 63) :
    Mirror m₀ f n seeds.names [] loans (Counted.new g)
      (Program.declared (Int64.ofNat n) g.limit seeds) where
  sound := by
    -- No instruction has been written down, so there is nothing for the check to refuse.
    refine ⟨0, ?_, by omega⟩
    exact {
      header := ⟨rfl, by simp [Program.declared, NameMap.names]⟩
      numbered := ⟨by omega, by simp, .nil⟩
      counter := rfl
      live := rfl
      sizes := ⟨small, by simp⟩
      checked := ⟨[], by simp [TempTable.find?], fun _ _ _ => rfl⟩ }
  performed := ⟨m₀, rfl, host, patient, unused⟩
  calls _ := rfl
  balance := rfl
  elements := ⟨fresh.2, rfl, rfl⟩
  limit := rfl
  handles := rfl
  lent := fresh.1
  blocks := by simp
  distinct := .nil

/-- A register as a whole is the operand that stands for it. -/
theorem same_whole {names : List String} {temps : List (Nat × View)} {area : Area} {base : Ref}
    {v : View} (placed : area.At names n temps View.length base n) (start : base.offset = 0)
    (found : f.find? (TempTable.ofEntries id temps) base = some v) (long : n ≤ v.length) :
    Same f n names temps area n v base :=
  -- The operand starts at the register's own start.
  ⟨base, n, 0, v, placed, by cases base; cases start; rfl, by omega, found, long, rfl⟩

/-- Memory and the operands of a recording are contexts alike. -/
theorem contexts {memory : Memory} {root : Expr α} {c : Context α Ref} {m₀ : Machine α}
    (holds : memory.Holds g n seeds root) (declares : Program.Declares c (Int64.ofNat n) seeds)
    {views : List View}
    (bound : ∀ i : Nat, views[i]? = seeds.names[i]?.bind memory.vars.find?) :
    (likeness m₀ ⟨memory.value, memory.deriv, views⟩ n seeds.names).Contexts
      (memory.context n seeds) c n where
  paths := rfl
  paths' := declares.paths
  positive := holds.laid.positive
  small := holds.few
  value temps := by
    rw [declares.value]
    exact same_whole .value rfl rfl holds.laid.value.long
  deriv temps := by
    rw [declares.deriv]
    exact same_whole .deriv rfl rfl holds.laid.deriv.long
  bound name := by
    cases found : seeds.find? name with
    | none =>
      exact .inl ⟨by simp [Memory.context, NameMap.find?_mapValues, found],
        declares.unknown name found⟩
    | some seed =>
      -- The operand of a variable has its position among the names, where the frame has its data.
      obtain ⟨v, data, long, renamed⟩ := holds.data found
      obtain ⟨i, listed, inside, operand⟩ := declares.known name seed found
      have bounded : i < 2 ^ 63 := Nat.lt_of_lt_of_le inside holds.countable.1
      refine .inr ⟨_, _, renamed, operand, rfl, fun temps => ?_⟩
      refine same_whole (.data listed bounded) rfl ?_ long
      simp only [Frame.find?, Ref.var, ofNat_not_neg bounded, if_false,
        Int64.toNatClampNeg_ofNat_of_lt bounded, bound, listed, Option.bind_some, data]

end Mirror

/-- A program that does to memory what a counted walk did, call by call. -/
structure Program.Repeats [Elem α] [Written α] (p : Program α) (memory : Memory) (g : Host α)
    (s : Counted (Host α) View) : Prop where
  runs : ∃ m, Machine.run Host.kernels p memory (Machine.new g none) = .ok () m ∧
    m.host = s.inner ∧ m.temps = []
  counts : ∀ op, s.calls.count op = p.count op
  peak : s.peakElements = p.peak
  returned : s.live = 0 ∧ s.liveElements = 0

namespace Memory.Holds

variable [Elem α] {memory : Memory} {g : Host α} {n : Nat} {seeds : NameMap α} {root : Expr α}

/-- A walk that gets through has met no defect, and leaves the duals of its tree. -/
theorem leaves (holds : memory.Holds g n seeds root) {s : Counted (Host α) View}
    (walked : Walk.generate (Counted.backend Host.backend) (memory.context n seeds) root
      (Counted.new g) = .ok () s) :
    root.defect? (g.terms (memory.context n seeds)) 0 = none ∧
      s.inner.live = [] ∧ s.inner.liveElements = 0 ∧
      Store.Changes ((memory.context n seeds).registers n) g.store s.inner.store ∧
      Walk.Leaves (memory.context n seeds) n
        (fun p => root.dual ((memory.context n seeds).input g.store p)) s.inner.store := by
  -- Counting calls does not change the walk, and the walk on memory is known.
  have plain :=
    (Counted.watches Host.backend).generate (memory.context n seeds) root (Counted.new g)
  rw [walked] at plain
  obtain ⟨t, changed, ends⟩ := Walk.generate_memory holds.ready holds.laid holds.small
  rw [holds.fresh.2] at ends
  cases defect : root.defect? (g.terms (memory.context n seeds)) 0 with
  | some cause =>
    rw [defect] at ends
    exact absurd (plain.symm.trans ends) (by simp)
  | none =>
    rw [defect] at ends
    -- Both describe how the one walk ended.
    have same : s.inner = { g with store := t } := by simpa using plain.symm.trans ends.1
    rw [same]
    exact ⟨rfl, holds.fresh.1, holds.fresh.2, changed, ends.2⟩

/-- A walk on memory stops where the compilation does, or its program brings a machine as far. -/
theorem compile_or_perform [Written α] (holds : memory.Holds g n seeds root) {m₀ : Machine α}
    (host : m₀.host = g) (patient : m₀.patience = none) (unused : m₀.temps = []) :
    (∃ cause cause' s, Walk.generate (Counted.backend Host.backend) (memory.context n seeds) root
        (Counted.new g) = .error (.error cause) s ∧
      Program.compile root (Int64.ofNat n) seeds g.limit = .error (.error (.walk cause')) ∧
      WalkError.Alike AllocError.Recorded cause cause') ∨
    ∃ s p m, Walk.generate (Counted.backend Host.backend) (memory.context n seeds) root
        (Counted.new g) = .ok () s ∧
      Program.compile root (Int64.ofNat n) seeds g.limit = .ok p ∧
      Machine.run Host.kernels p memory m₀ = .ok () m ∧ m.host = s.inner ∧ m.temps = [] ∧
      (∀ op, s.calls.count op = p.count op) ∧ s.peakElements = p.peak ∧
      s.live = 0 ∧ s.liveElements = 0 := by
  -- Compiling is walking with a recorder, and the two walks go side by side.
  obtain ⟨c, declares, recorded⟩ := Program.exists_record_eq root (Int64.ofNat n) g.limit seeds
  obtain ⟨views, bound, prepared⟩ := holds.prepare
  have small : n < 2 ^ 63 := Host.lt_of_le_room holds.few
  have started : Mirror m₀ ⟨memory.value, memory.deriv, views⟩ n seeds.names [] root.blocks
      (Counted.new g) (Program.declared (Int64.ofNat n) g.limit seeds) :=
    Mirror.start host patient unused holds.fresh small holds.countable.2
  rcases (Mirror.likeness _ _ n seeds.names).generate_alike (Mirror.contexts holds declares bound)
    root started holds.broad with
    ⟨s, r, walked, rewalked, mirror⟩ | ⟨cause, cause', s, r, stopped, restopped, alike, _⟩
  · -- The recording is a program, and performing it has led to the memory of the walk.
    obtain ⟨next, sound, _⟩ := mirror.sound
    obtain ⟨m, performed, host, _, temps⟩ := mirror.performed
    obtain ⟨sane, _, returned, _⟩ := holds.leaves walked
    obtain ⟨text, written⟩ := Expr.exists_write root 0 sane
    obtain ⟨p, compiled, paths, vars, instrs, peak⟩ :=
      Program.compile_ok recorded rewalked sound.live written
    -- What was recorded passes the check, so the machine finds its data and performs all of it.
    have safe := sound.validate holds.laid.positive paths vars instrs
    have frame := prepared p (paths.trans sound.header.1) (vars.trans sound.header.2) safe
    refine .inr ⟨s, p, _, walked, compiled, Machine.run_ok frame (instrs ▸ performed) temps, host,
      temps, fun op => ?_, ?_, ?_, ?_⟩
    · rw [mirror.calls op, Program.count, instrs, List.countP_reverse]
    · rw [mirror.elements.2.2, peak]
    · simp [Counted.live, mirror.balance]
    · rw [mirror.elements.2.1, ← mirror.elements.1, returned]
  · exact .inl ⟨cause, cause', s, stopped, Program.compile_error recorded restopped, alike⟩

/-- A walk on memory stops where the compilation does, or its program repeats what the walk did. -/
theorem compile_or_run [Written α] (holds : memory.Holds g n seeds root) :
    (∃ cause cause' s, Walk.generate (Counted.backend Host.backend) (memory.context n seeds) root
        (Counted.new g) = .error (.error cause) s ∧
      Program.compile root (Int64.ofNat n) seeds g.limit = .error (.error (.walk cause')) ∧
      WalkError.Alike AllocError.Recorded cause cause') ∨
    ∃ s p, Walk.generate (Counted.backend Host.backend) (memory.context n seeds) root
        (Counted.new g) = .ok () s ∧
      Program.compile root (Int64.ofNat n) seeds g.limit = .ok p ∧ p.Repeats memory g s := by
  -- A new machine has the memory as it is and no temporaries.
  have fresh : (Machine.new g none).host = g := rfl
  rcases holds.compile_or_perform fresh rfl rfl with
    stopped | ⟨s, p, m, walked, compiled, ran, host, temps, counts, peak, returned⟩
  · exact .inl stopped
  · exact .inr ⟨s, p, walked, compiled, ⟨m, ran, host, temps⟩, counts, peak, returned⟩

end Memory.Holds

/-- The seeds of inputs, by name. -/
def seedsOf (inputs : NameMap (Binding α View)) : NameMap α := inputs.mapValues (fun _ b => b.seed)

/-- The memory that an evaluation works on. -/
def evaluationMemory (inputs : NameMap (Binding α View)) (value deriv : View) : Memory :=
  ⟨value, deriv, inputs.mapValues (fun _ b => b.data)⟩

/-- An evaluation walks over its memory with its seeds. -/
theorem context_evaluationMemory (inputs : NameMap (Binding α View)) (value deriv : View) :
    (evaluationMemory inputs value deriv).context value.length (seedsOf inputs) =
      evaluationContext inputs value deriv := by
  -- Data and seed of every name are put together again as they were.
  have same : (seedsOf inputs).mapValues (fun name seed =>
      (⟨((inputs.mapValues (fun _ b => b.data)).find? name).getD .empty, seed⟩ :
        Binding α View)) = inputs := by
    refine NameMap.eq_of_entries ?_
    simp only [seedsOf, NameMap.mapValues, List.map_map]
    refine (List.map_congr_left (fun entry listed => ?_)).trans (List.map_id _)
    have found := (inputs.mem_entries_iff entry.1 entry.2).mp listed
    have data := NameMap.find?_mapValues (fun _ (b : Binding α View) => b.data) inputs entry.1
    simp only [NameMap.mapValues, found] at data
    simp [data]
  simp only [Memory.context, evaluationMemory, evaluationContext, same]

/--
Two memories for the same computation: one to evaluate a tree in, and one for its program.

Both have the same limit and nothing on loan, and hold the same data on all paths. What their
registers and new blocks hold, and where they lie, does not matter.
-/
structure Comparable (h g : Host α) (root : Expr α) (inputs : NameMap (Binding α View))
    (value deriv : View) (memory : Memory) : Prop where
  ready : h.Ready
  fresh : h.live = [] ∧ h.liveElements = 0
  laid : (evaluationContext inputs value deriv).Laid value.length h.store
  holds : memory.Holds g value.length (seedsOf inputs) root
  limit : g.limit = h.limit
  data : ∀ name b v, inputs.find? name = some b → memory.vars.find? name = some v →
    ∀ p < value.length, g.store.read? v p = h.store.read? b.data p

namespace Comparable

variable {h g : Host α} {root : Expr α} {inputs : NameMap (Binding α View)} {value deriv : View}
  {memory : Memory}

/-- The memory of the evaluation could be used for the program, too. -/
theorem holds_own (comparable : Comparable h g root inputs value deriv memory) :
    (evaluationMemory inputs value deriv).Holds h value.length (seedsOf inputs) root where
  ready := comparable.ready
  fresh := comparable.fresh
  present name known := by
    -- A name has a seed because it is one of the inputs, and so it has data.
    cases found : inputs.find? name with
    | none => simp [seedsOf, NameMap.contains, NameMap.find?_mapValues, found] at known
    | some b => exact ⟨b.data, by simp [evaluationMemory, NameMap.find?_mapValues, found]⟩
  laid := by
    rw [context_evaluationMemory]
    exact comparable.laid
  small := comparable.holds.small
  countable := comparable.holds.countable

/-- Every name has the same input on a path of both memories. -/
theorem input_eq [Elem α] (comparable : Comparable h g root inputs value deriv memory) {p : Nat}
    (below : p < value.length) (name : String) :
    (memory.context value.length (seedsOf inputs)).input g.store p name =
      (evaluationContext inputs value deriv).input h.store p name := by
  cases found : inputs.find? name with
  | none =>
    simp [Context.input, Memory.context, evaluationContext, seedsOf, NameMap.find?_mapValues, found]
  | some b =>
    have seed : (seedsOf inputs).find? name = some b.seed := by
      simp [seedsOf, NameMap.find?_mapValues, found]
    -- The seeds are the same, and so is what the data shows on the path.
    obtain ⟨v, known, _, bound⟩ := comparable.holds.data seed
    simp [Context.input, bound, evaluationContext, found,
      comparable.data name b v found known p below]

/-- Both memories end with the duals of the tree, once the walk over them gets through. -/
theorem same_registers [Elem α] (comparable : Comparable h g root inputs value deriv memory)
    {s s' : Counted (Host α) View}
    (walked : Walk.generate (Counted.backend Host.backend) (evaluationContext inputs value deriv)
      root (Counted.new h) = .ok () s)
    (rewalked : Walk.generate (Counted.backend Host.backend)
      (memory.context value.length (seedsOf inputs)) root (Counted.new g) = .ok () s') :
    ∀ p < value.length,
      s'.inner.store.read? memory.value p = s.inner.store.read? value p ∧
      s'.inner.store.read? memory.deriv p = s.inner.store.read? deriv p := by
  intro p below
  have own := comparable.holds_own
  rw [← context_evaluationMemory] at walked
  -- Either memory shows the dual of the tree at the inputs of the path, which are the same.
  obtain ⟨_, _, _, _, left⟩ := own.leaves walked
  obtain ⟨_, _, _, _, left'⟩ := comparable.holds.leaves rewalked
  have alike := Expr.dual_congr root (fun name _ => comparable.input_eq below name)
  rw [context_evaluationMemory] at left
  have valueHolds := left.value.holds p below
  have derivHolds := left.deriv.holds p below
  have valueHolds' := left'.value.holds p below
  have derivHolds' := left'.deriv.holds p below
  rw [alike] at valueHolds' derivHolds'
  exact ⟨valueHolds'.trans valueHolds.symm, derivHolds'.trans derivHolds.symm⟩

end Comparable

/-- What an evaluation, with its calls counted, and the run of a program have in common. -/
structure Program.Agrees (p : Program α) (memory : Memory) (g : Host α) (m : Machine α)
    (inputs : NameMap (Binding α View)) (value deriv : View) (h : Host α)
    (s : Counted (Host α) View) : Prop where
  registers : ∀ q < value.length,
    m.host.store.read? memory.value q = s.inner.store.read? value q ∧
    m.host.store.read? memory.deriv q = s.inner.store.read? deriv q
  keepsInputs : ∀ name b, inputs.find? name = some b → s.inner.contents b.data = h.contents b.data
  keepsData : ∀ name v, inputs.contains name = true → memory.vars.find? name = some v →
    m.host.contents v = g.contents v
  counts : ∀ op, s.calls.count op = p.count op
  peak : s.peakElements = p.peak
  returned : s.live = 0 ∧ s.liveElements = 0 ∧ s.inner.live = [] ∧ m.host.live = [] ∧ m.temps = []

namespace Comparable

variable [Elem α] [Written α] {h g : Host α} {root : Expr α} {inputs : NameMap (Binding α View)}
  {value deriv : View} {memory : Memory}

/-- An evaluation stops where the compilation does, or goes through and agrees with the program. -/
theorem stop_or_agree (comparable : Comparable h g root inputs value deriv memory) :
    (∃ cause cause' h', evaluate Host.backend root inputs value deriv h =
        .error (.error (.walk cause)) h' ∧
      Program.compile root (Int64.ofNat value.length) (seedsOf inputs) h.limit =
        .error (.error (.walk cause')) ∧
      WalkError.Alike AllocError.Recorded cause cause') ∨
    ∃ s p m, evaluate (Counted.backend Host.backend) root inputs value deriv (Counted.new h) =
        .ok () s ∧
      evaluate Host.backend root inputs value deriv h = .ok () s.inner ∧
      Program.compile root (Int64.ofNat value.length) (seedsOf inputs) h.limit = .ok p ∧
      Machine.run Host.kernels p memory (Machine.new g none) = .ok () m ∧
      p.Agrees memory g m inputs value deriv h s := by
  -- The tree is compiled once, and its program repeats the walk on either memory.
  have plain := (Counted.watches Host.backend).evaluate root inputs value deriv (Counted.new h)
  have walk := evaluate_eq_generate comparable.laid (Counted.backend Host.backend) root
  have other := comparable.holds.compile_or_run
  have own := comparable.holds_own.compile_or_run
  rw [context_evaluationMemory] at own
  rw [comparable.limit] at other
  rcases own with ⟨cause, cause', s, stopped, failed, alike⟩ | ⟨s, p, walked, compiled, repeats⟩
  · -- An evaluation hands on the stop of its walk.
    refine .inl ⟨cause, cause', s.inner, ?_, failed, alike⟩
    rw [walk, Action.adapt_error stopped] at plain
    exact plain
  · rcases other with ⟨_, _, _, _, failed, _⟩ | ⟨s', p', rewalked, recompiled, repeated⟩
    · -- A tree that was compiled for one memory is not refused for the other.
      exact absurd (compiled.symm.trans failed) (by simp)
    · have same : p' = p := by simpa using recompiled.symm.trans compiled
      subst same
      obtain ⟨m, ran, host, temps⟩ := repeated.runs
      have evaluated : evaluate (Counted.backend Host.backend) root inputs value deriv
          (Counted.new h) = .ok () s := by
        rw [walk, Action.adapt_ok walked]
      rw [evaluated] at plain
      refine .inr ⟨s, p', m, evaluated, plain, compiled, ran, ?_⟩
      -- What the walks leave is what the evaluation and the run leave.
      have registers := comparable.same_registers walked rewalked
      obtain ⟨_, returned', _, changed', _⟩ := comparable.holds.leaves rewalked
      rw [← context_evaluationMemory] at walked
      obtain ⟨_, returned, _, changed, _⟩ := comparable.holds_own.leaves walked
      rw [context_evaluationMemory] at changed
      exact {
        registers := by rwa [host]
        keepsInputs := fun name b found => comparable.laid.keeps_data changed found
        keepsData := fun name v known found => by
          -- The name is an input, so it has a seed, and its data is the one that the walk had.
          obtain ⟨b, bound⟩ := Option.isSome_iff_exists.mp known
          have seed : (seedsOf inputs).find? name = some b.seed := by
            simp [seedsOf, NameMap.find?_mapValues, bound]
          obtain ⟨w, same, _, named⟩ := comparable.holds.data seed
          rw [found, Option.some.injEq] at same
          subst same
          rw [host]
          exact comparable.holds.laid.keeps_data changed' named
        counts := repeats.counts
        peak := repeats.peak
        returned := ⟨repeats.returned.1, repeats.returned.2, returned,
          by rw [host]; exact returned', temps⟩ }

end Comparable

/-- Memory in which both registers share a block, next to the data of one variable. -/
def sampleRunHost [Elem α] : Host α where
  store := ⟨#[#[Elem.zero, Elem.one], #[Elem.zero, Elem.zero, Elem.zero, Elem.zero]]⟩
  live := []
  liveElements := 0
  limit := 0
  chunking := .sequential
  blank _ _ := Elem.zero

/-- The two halves of the shared block, and the data. -/
def sampleMemory : Memory := ⟨⟨1, 0, 2⟩, ⟨1, 2, 2⟩, .insert .empty "x" ⟨0, 0, 2⟩⟩

/-- There is no other data. -/
theorem find?_sampleMemory (name : String) :
    sampleMemory.vars.find? name = if "x" = name then some ⟨0, 0, 2⟩ else none := by
  -- The data was entered under one name.
  simp [sampleMemory, NameMap.find?_insert, NameMap.find?_empty]

/-- The program's memory has all its buffers, each of two elements. -/
theorem sampleRunHost_buffer [Elem α] {v : View}
    (among : v ∈ [(⟨0, 0, 2⟩ : View), ⟨1, 0, 2⟩, ⟨1, 2, 2⟩]) :
    (sampleRunHost : Host α).store.Buffer v 2 := by
  -- Each of the three lies in a block that is long enough.
  simp only [List.mem_cons, List.not_mem_nil, or_false] at among
  rcases among with rfl | rfl | rfl
  all_goals exact ⟨Nat.le_refl 2, fun p below => by interval_cases p <;> rfl⟩

/-- Evaluating a product in one memory can be compared with running its program in the other. -/
theorem sample_comparable [Elem α] :
    Comparable (Walk.sampleHost : Host α) sampleRunHost Walk.sampleTree Walk.sampleInputs
      ⟨0, 0, 2⟩ ⟨1, 0, 3⟩ sampleMemory where
  ready := Walk.sample_setup.ready
  fresh := ⟨rfl, rfl⟩
  laid := Walk.sample_setup.laid
  holds :=
    -- The registers are the two halves of the second block, the data is the first.
    { ready := ⟨fun entry found => absurd found List.not_mem_nil, by decide, .inl (Int.le_refl 1)⟩
      fresh := ⟨rfl, rfl⟩
      present := fun name known => by
        rw [find?_sampleMemory]
        by_cases same : "x" = name
        · exact ⟨_, if_pos same⟩
        · simp [NameMap.contains, seedsOf, NameMap.find?_mapValues, Walk.find?_sampleInputs,
            same] at known
      laid :=
        { paths := rfl
          positive := by decide
          value := sampleRunHost_buffer (by simp [Memory.context, sampleMemory])
          deriv := sampleRunHost_buffer (by simp [Memory.context, sampleMemory])
          apart := fun _ => .inl (Nat.le_refl 2)
          data := fun name b found => by
            by_cases same : "x" = name
            · simp only [Memory.context, seedsOf, NameMap.find?_mapValues, Walk.find?_sampleInputs,
                find?_sampleMemory, if_pos same, Option.map_some, Option.getD_some,
                Option.some.injEq] at found
              subst found
              exact ⟨sampleRunHost_buffer (by simp), (fun same => by cases same),
                (fun same => by cases same)⟩
            · simp [Memory.context, seedsOf, NameMap.find?_mapValues, Walk.find?_sampleInputs,
                same] at found }
      small := Walk.sample_setup.small
      countable := ⟨by show 1 ≤ _; decide, by show 1 ≤ _; decide⟩ }
  limit := rfl
  data name b v found known p below := by
    rw [Walk.find?_sampleInputs] at found
    rw [find?_sampleMemory] at known
    split at found
    · rename_i same
      rw [if_pos same] at known
      cases found
      cases known
      interval_cases p <;> rfl
    · cases found

/--
Compiling a tree and running its program computes what evaluating the tree computes.

The evaluation goes through exactly when the compilation and the run both do. When it stops, the
compilation stops for the same reason. When it goes through, the registers hold the same on every
path, all data is as before, and the evaluation has made one call for every instruction of the
program.
-/
theorem evaluate_agrees_with_program [Elem α] [Written α] {h g : Host α} {root : Expr α}
    {inputs : NameMap (Binding α View)} {value deriv : View} {memory : Memory}
    (comparable : Comparable h g root inputs value deriv memory) :
    ((∃ h', evaluate Host.backend root inputs value deriv h = .ok () h') ↔
      ∃ p kernels m,
        Program.compile root (Int64.ofNat value.length) (seedsOf inputs) h.limit = .ok p ∧
        Host.symbols.link = .ok kernels ∧
        Machine.run kernels p memory (Machine.new g none) = .ok () m) ∧
    (∀ halt h', evaluate Host.backend root inputs value deriv h = .error halt h' →
      ∃ cause cause', halt = .error (.walk cause) ∧
        Program.compile root (Int64.ofNat value.length) (seedsOf inputs) h.limit =
          .error (.error (.walk cause')) ∧
        WalkError.Alike AllocError.Recorded cause cause') ∧
    ∀ h' p kernels m, evaluate Host.backend root inputs value deriv h = .ok () h' →
      Program.compile root (Int64.ofNat value.length) (seedsOf inputs) h.limit = .ok p →
      Host.symbols.link = .ok kernels →
      Machine.run kernels p memory (Machine.new g none) = .ok () m →
      ∃ s, evaluate (Counted.backend Host.backend) root inputs value deriv (Counted.new h) =
          .ok () s ∧
        s.inner = h' ∧ p.Agrees memory g m inputs value deriv h s := by
  rcases comparable.stop_or_agree with
    ⟨cause, cause', h₁, stopped, failed, alike⟩ |
      ⟨s, p, m, counted, evaluated, compiled, ran, agrees⟩
  · -- Both sides stop, so there is nothing to compare but the causes.
    refine ⟨⟨fun ⟨h', ok⟩ => absurd (stopped.symm.trans ok) (by simp),
      fun ⟨p, _, _, ok, _⟩ => absurd (failed.symm.trans ok) (by simp)⟩, fun halt h' error => ?_,
      fun h' p _ _ ok => absurd (stopped.symm.trans ok) (by simp)⟩
    obtain ⟨rfl, rfl⟩ : Halt.error (.walk cause) = halt ∧ h₁ = h' := by
      simpa using stopped.symm.trans error
    exact ⟨cause, cause', rfl, failed, alike⟩
  · -- Both sides go through, and their answers are the only ones.
    refine ⟨⟨fun _ => ⟨p, Host.kernels, m, compiled, Host.link_symbols, ran⟩,
      fun _ => ⟨s.inner, evaluated⟩⟩,
      fun halt h' error => absurd (evaluated.symm.trans error) (by simp), ?_⟩
    intro h' p' kernels m' ok recompiled linked reran
    obtain rfl : p = p' := by simpa using compiled.symm.trans recompiled
    obtain rfl : Host.kernels = kernels := by simpa using Host.link_symbols.symm.trans linked
    obtain rfl : m = m' := by simpa using ran.symm.trans reran
    exact ⟨s, counted, by simpa using evaluated.symm.trans ok, agrees⟩

/-- The program's own numbers: evaluated in one memory and compiled for another. -/
theorem evaluate_agrees_with_program_sample :
    Comparable (Walk.sampleHost : Host Float) sampleRunHost Walk.sampleTree Walk.sampleInputs
      ⟨0, 0, 2⟩ ⟨1, 0, 3⟩ sampleMemory ∧
    ∃ h' p m s,
      evaluate Host.backend Walk.sampleTree Walk.sampleInputs ⟨0, 0, 2⟩ ⟨1, 0, 3⟩
        (Walk.sampleHost : Host Float) = .ok () h' ∧
      Program.compile Walk.sampleTree 2 (seedsOf Walk.sampleInputs) 0 = .ok p ∧
      Machine.run Host.kernels p sampleMemory (Machine.new sampleRunHost none) = .ok () m ∧
      s.inner = h' ∧ p.Agrees sampleMemory sampleRunHost m Walk.sampleInputs ⟨0, 0, 2⟩ ⟨1, 0, 3⟩
        Walk.sampleHost s := by
  have comparable : Comparable (Walk.sampleHost : Host Float) _ _ _ _ _ _ := sample_comparable
  obtain ⟨goes, _, agree⟩ := evaluate_agrees_with_program comparable
  -- The evaluation goes through because memory has no limit, so the other side does, too.
  obtain ⟨h', walked⟩ := Walk.Setup.succeeds (h := (Walk.sampleHost : Host Float)) Walk.sample_setup
    (by decide)
  have evaluated := (congrFun (evaluate_eq_generate comparable.laid Host.backend Walk.sampleTree)
    Walk.sampleHost).trans (Action.adapt_ok walked)
  obtain ⟨p, kernels, m, compiled, linked, ran⟩ := goes.mp ⟨h', evaluated⟩
  obtain ⟨s, _, inner, agrees⟩ := agree h' p kernels m evaluated compiled linked ran
  obtain rfl : Host.kernels = kernels := by simpa using Host.link_symbols.symm.trans linked
  exact ⟨comparable, h', p, m, s, evaluated, compiled, ran, inner, agrees⟩

end Tangent
