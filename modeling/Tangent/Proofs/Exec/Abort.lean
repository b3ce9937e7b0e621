import Tangent.Proofs.Exec.Books
import Tangent.Proofs.Exec.Bounds
import Tangent.Proofs.Exec.Compiled
import Tangent.Proofs.Program.Discipline
import Tangent.Proofs.Program.Refusal
import Tangent.Proofs.Program.Sizes
import Tangent.Proofs.Walk.Measured

/-!
What is measured when a block is refused.

Where memory does not leave room for a tree, evaluating it and running its program stop at the same
block, after the same calls. The evaluation then makes a call for each block that it gives back,
while the run gives its blocks back without a call.
-/

namespace Tangent

open ProgramFile (elements elements_erase)

variable {α : Type}

/-- A state of the check that knows what is booked for instructions. -/
structure Validation.Books (v : Validation) (done : List (Instr α)) : Prop where
  begun : v.Begun
  unique : v.live.Unique
  booked : Instr.booked done = (v.live, Int64.ofInt (elements v.live))
  balance : done.countP (fun i => i.op = .alloc) =
    done.countP (fun i => i.op = .free) + v.live.length

/-- One more accepted instruction is booked as the check takes it. -/
theorem Validation.Books.accepted {p : Program α} {v v' : Validation} {done : List (Instr α)}
    {pc : Nat} {i : Instr α} (books : v.Books done) (accepted : p.Accepted v pc i v') :
    v'.Books (done ++ [i]) := by
  have begun := books.begun.accepted accepted
  cases accepted.follows with
  | begins asks _ unseen =>
    have absent := books.begun.absent unseen
    have inserted := TempTable.insert_absent absent i.len
    refine ⟨begun, ?_, ?_, ?_⟩
    · show TempTable.Unique (v.live.insert i.dst.index i.len)
      rw [inserted]
      exact List.pairwise_cons.mpr ⟨TempTable.ne_of_absent absent, books.unique⟩
    · rw [Instr.booked_concat, books.booked, Instr.book, TempTable.after, asks]
      refine Prod.ext rfl ?_
      show Int64.ofInt (elements v.live) + i.len =
        Int64.ofInt (elements (v.live.insert i.dst.index i.len))
      have sum : elements ((i.dst.index, i.len) :: v.live) = i.len.toInt + elements v.live := by
        simp [elements]
      rw [inserted, sum, Int64.ofInt_add, Int64.ofInt_toInt, Int64.add_comm]
    · show _ = _ + (v.live.insert i.dst.index i.len).length
      simp [List.countP_append, asks, inserted, books.balance, Nat.add_assoc]
  | ends asks live =>
    -- The temporary has one entry, and what is booked for it is taken off with the entry.
    obtain ⟨size, known⟩ := Option.isSome_iff_exists.mp live
    obtain ⟨later, earlier, split, rest⟩ := books.unique.split known
    refine ⟨begun, books.unique.sublist List.filter_sublist, ?_, ?_⟩
    · rw [Instr.booked_concat, books.booked, Instr.book, TempTable.after, asks]
      refine Prod.ext rfl ?_
      show Int64.ofInt (elements v.live) - (v.live.find? i.dst.index).getD 0 =
        Int64.ofInt (elements (v.live.erase i.dst.index))
      rw [elements_erase (books.unique.imp Ne.symm) known, Int64.ofInt_sub, Int64.ofInt_toInt,
        known]
      rfl
    · have balance := books.balance
      rw [split] at balance
      show _ = _ + (v.live.erase i.dst.index).length
      simp only [List.countP_append, asks, rest, List.length_append, List.length_cons,
        List.countP_singleton, decide_true, if_true] at balance ⊢
      simp
      omega
  | keeps calls =>
    -- An instruction that begins and ends nothing is not booked.
    refine ⟨begun, books.unique, ?_, ?_⟩
    · rw [Instr.booked_concat, Instr.book_other _ calls, books.booked]
    · simpa [List.countP_append, calls] using books.balance

/-- The check knows what is booked for the instructions it has accepted. -/
theorem Validation.books [Written α] {p : Program α} {v : Validation} {done : List (Instr α)}
    (checked : p.checkInstrs ⟨[], []⟩ 0 done = .ok v) : v.Books done := by
  -- Instructions are booked in order, so the induction takes the last one off.
  induction done using List.reverseRecOn generalizing v with
  | nil =>
    obtain rfl := Except.ok.inj checked
    exact ⟨fun index live => by simp [TempTable.find?] at live, List.Pairwise.nil, rfl, rfl⟩
  | append_singleton done i ih =>
    rw [Program.checkInstrs_append] at checked
    obtain ⟨w, before, last⟩ := ok_of_bind checked
    obtain ⟨w', accepted, rest⟩ := Program.checkInstrs_cons_ok last
    obtain rfl := Except.ok.inj rest
    exact (ih before).accepted accepted

/-- A block that would fit alone is refused only where temporaries are live. -/
theorem Program.Cut.live_ne_nil [Written α] {p : Program α} {limit : Int64} {pc : Nat}
    {i : Instr α} (cut : p.Cut limit pc i) (safe : p.validate = .ok ()) (fits : i.len ≤ limit) :
    Program.liveAfter (p.instrs.take pc) ≠ [] := by
  obtain ⟨_, _, checked⟩ := Program.checkInstrs_of_validate safe
  rw [← List.take_append_drop pc p.instrs, Program.checkInstrs_append] at checked
  obtain ⟨v, first, _⟩ := ok_of_bind checked
  have booked := (Validation.books first).booked
  intro none
  rw [← Instr.booked_live, booked] at none
  -- Without temporaries nothing is booked, and the block is asked for alone.
  have alone := cut.limited
  rw [booked, show v.live = [] from none] at alone
  simp only [Bool.and_eq_true, decide_eq_true_eq] at alone
  have zero : Int64.ofInt (elements []) + i.len = i.len := Int64.zero_add i.len
  rw [zero] at alone
  exact absurd alone.2 (Int64.not_lt.mpr fits)

/-- The elements that the check knows are those of the temporaries of a machine. -/
theorem Machine.Tracks.elements_eq {m : Machine α} {v : Validation} (tracks : m.Tracks v) :
    elements v.live = m.temps.held := by
  rw [tracks.sizes]
  -- No block is so large that its length as a machine integer is another number.
  have few : ∀ entry ∈ m.temps, entry.2.length ≤ Host.room :=
    fun entry listed => (tracks.blocks entry listed).2.2.1
  generalize m.temps = temps at few
  induction temps with
  | nil => rfl
  | cons entry rest ih =>
    have others := ih (fun other listed => few other (List.mem_cons_of_mem _ listed))
    simp only [elements, TempTable.mapValues, TempTable.held, List.map_cons, List.sum_cons,
      Host.toInt_ofNat_of_le_room (few entry List.mem_cons_self)] at others ⊢
    rw [others]
    push_cast
    rfl

namespace Machine.Reached

variable [Elem α] [Written α] {p : Program α} {f : Frame} {m reached : Machine α} {pc : Nat}
  {i : Instr α}

/-- What a run has borrowed is what is booked for its instructions. -/
theorem elements_eq {done : List (Instr α)} (here : Reached p f m done reached) :
    reached.host.liveElements = m.host.liveElements + (Instr.booked done).2 := by
  -- The check keeps the same live temporaries as the machine.
  obtain ⟨v, checked, tracks, _⟩ := here.checked
  rw [here.amid.elements, (Validation.books checked).booked, tracks.elements_eq]
  rfl

/-- A machine that comes to a cut is refused its block. -/
theorem refused (here : Reached p f m (p.instrs.take pc) reached) (fresh : m.host.liveElements = 0)
    (cut : p.Cut reached.host.limit pc i) :
    Machine.step Host.kernels f i reached =
      .error (.error (.alloc (.memoryLimit i.len (Instr.booked (p.instrs.take pc)).2
        reached.host.limit))) reached := by
  -- Nothing else is on loan, so what is booked for the run is all there is.
  have limited := cut.limited
  have elements := here.elements_eq
  rw [fresh, Int64.zero_add] at elements
  rw [← elements] at limited ⊢
  have asked : (Host.alloc i.len : Action (Host α) StepError _) reached.host =
      .ok (.error (.memoryLimit i.len reached.host.liveElements reached.host.limit))
        reached.host := by
    rw [Host.alloc, if_neg cut.proper, Action.get_bind, if_pos limited]
    rfl
  rw [step_eq, Instr.task_eq_alloc.mpr cut.asks]
  exact beginTemp_refused asked

end Machine.Reached

/-- What was measured up to a stop that has given everything back. -/
structure Meter.Stopped (m : Meter) (done : List (Instr α)) : Prop where
  calls : ∀ op, op ≠ .free → m.kernelCalls.count op = done.countP (fun i => i.op = op)
  allocations : m.allocations = done.countP (fun i => i.op = .alloc)
  releases : m.releases = done.countP (fun i => i.op = .alloc)
  held : m.liveElements = 0

namespace Memory.Holds

variable [Elem α] [Written α] {memory : Memory} {g : Host α} {n : Nat} {seeds : NameMap α}
  {root : Expr α} {c : Context α Ref} {p : Program α} {cause : WalkError} {r : Recorder α}
  {pc : Nat} {i : Instr α}

/-- A walk stops with its recording, and performing what was recorded leads to its memory. -/
theorem mirrored (holds : memory.Holds g n seeds root)
    (declares : Program.Declares c (Int64.ofNat n) seeds)
    (stopped : Walk.generate Recorder.backend c root
      (Program.declared (Int64.ofNat n) g.limit seeds) = .error (.error cause) r)
    {views : List View} (bound : ∀ i : Nat, views[i]? = seeds.names[i]?.bind memory.vars.find?) :
    ∃ cause' s, Walk.generate (Counted.backend Host.backend) (memory.context n seeds) root
        (Counted.new g) = .error (.error cause') s ∧
      WalkError.Alike AllocError.Recorded cause' cause ∧
      Mirror (Machine.new g none) ⟨memory.value, memory.deriv, views⟩ n seeds.names [] 0 s r := by
  have started : Mirror (Machine.new g none) ⟨memory.value, memory.deriv, views⟩ n seeds.names []
      root.blocks (Counted.new g) (Program.declared (Int64.ofNat n) g.limit seeds) :=
    Mirror.start rfl rfl rfl holds.fresh (Host.lt_of_le_room holds.few) holds.countable.2
  rcases (Mirror.likeness _ _ n seeds.names).generate_alike (Mirror.contexts holds declares bound)
    root started holds.broad with
    ⟨s, r', _, rewalked, _⟩ | ⟨cause', cause'', s, r', walked, rewalked, alike, mirror⟩
  · -- The recording has stopped, so it is not the one that goes through.
    rw [stopped] at rewalked
    cases rewalked
  · rw [stopped] at rewalked
    cases rewalked
    exact ⟨cause', s, walked, alike, mirror⟩

/-- A walk whose recording is cut short has made the calls of the instructions up to there. -/
theorem walk_measured (holds : memory.Holds g n seeds root)
    (declares : Program.Declares c (Int64.ofNat n) seeds)
    {size inUse : Int64} (stopped : Walk.generate Recorder.backend c root
      (Program.declared (Int64.ofNat n) g.limit seeds) =
        .error (.error (.alloc size (.recordLimit size inUse g.limit))) r)
    {done : List (Instr α)} (cut : r.CutAfter done) :
    ∃ s, (Walk.generate (Metered.backend Host.backend) (memory.context n seeds) root).outcome
        (.new g) = (.error (.error (.alloc size (.memoryLimit size inUse g.limit))), s) ∧
      s.meter.Stopped done ∧
      s.meter.kernelCalls.count .free = done.countP (fun i => i.op = .alloc) := by
  obtain ⟨views, bound, _⟩ := holds.prepare
  obtain ⟨cause, s, walked, alike, mirror⟩ := holds.mirrored declares stopped bound
  -- The error of memory is the one that the recording has, with the name of memory's limit.
  obtain rfl : cause = .alloc size (.memoryLimit size inUse g.limit) := by
    cases cause with
    | alloc requested refusal =>
      obtain ⟨rfl, recorded⟩ := alike
      cases recorded
      rfl
    | _ => cases alike
  -- Behind the cut there are only ends of temporaries.
  have calls (op : Op) (other : op ≠ .free) :
      s.calls.count op = done.countP (fun i => i.op = op) := by
    obtain ⟨frees, recorded, ends⟩ := cut
    have none : frees.countP (fun i => decide (i.op = op)) = 0 :=
      List.countP_eq_zero.mpr (fun i listed same =>
        other ((of_decide_eq_true same).symm.trans (ends i listed)))
    rw [mirror.calls op, ← List.countP_reverse, recorded, List.countP_append, none, Nat.add_zero]
  have lent := calls .alloc (by decide)
  have balance : s.calls.count .alloc = s.calls.count .free := mirror.balance
  -- What is measured is what is counted.
  have measured := Metered.matches_generate g (memory.context n seeds) root
  rw [show (Walk.generate (Counted.backend Host.backend) (memory.context n seeds) root).outcome
    (.new g) = (.error (.error (.alloc size (.memoryLimit size inUse g.limit))), s) by
      rw [Action.outcome, walked]] at measured
  generalize (Walk.generate (Metered.backend Host.backend) (memory.context n seeds) root).outcome
    (.new g) = outcome at measured ⊢
  obtain ⟨ended, t⟩ := outcome
  obtain ⟨rfl, agree, held⟩ := measured
  refine ⟨t, rfl, ⟨fun op other => ?_, ?_, ?_, held⟩, ?_⟩
  · rw [agree.calls, calls op other]
  · rw [agree.allocations, lent]
  · rw [agree.releases, ← balance, lent]
  · rw [agree.calls, ← balance, lent]

/-- The run of a program stops where its recording was cut short. -/
theorem run_measured (holds : memory.Holds g n seeds root)
    (declares : Program.Declares c (Int64.ofNat n) seeds)
    (stopped : Walk.generate Recorder.backend c root
      (Program.declared (Int64.ofNat n) g.limit seeds) = .error (.error cause) r)
    (compiled : Program.compile root (Int64.ofNat n) seeds 0 = .ok p)
    (cut : p.Cut g.limit pc i) (recorded : r.CutAfter (p.instrs.take pc)) :
    ∃ m, (Machine.run Host.kernels p memory).outcome (Machine.new g none) =
        (.error (.error (.step pc i.text (.alloc (.memoryLimit i.len
          (Instr.booked (p.instrs.take pc)).2 g.limit)))), m) ∧
      m.meter.Stopped (p.instrs.take pc) ∧
      m.meter.kernelCalls.count .free + (Program.liveAfter (p.instrs.take pc)).length =
        (p.instrs.take pc).countP (fun i => i.op = .alloc) := by
  -- The program is safe and finds its data in the memory.
  have broad : (Int64.ofNat n).toInt * root.broadest < 2 ^ 63 := by
    have small := Host.lt_of_le_room holds.broad
    rw [Host.toInt_ofNat_of_le_room holds.few]
    exact_mod_cast small
  obtain ⟨ofPaths, ofVars, safe⟩ := Program.safe_of_compile compiled broad holds.countable
  obtain ⟨views, bound, prepared⟩ := holds.prepare
  have frame := prepared p ofPaths ofVars safe
  obtain ⟨_, covers⟩ := Machine.covers_of_prepare frame
  have numbered : (Machine.new g none).host.Numbered := holds.ready.lent
  -- Performing the recording leads through the cut.
  obtain ⟨_, _, _, _, mirror⟩ := holds.mirrored declares stopped bound
  obtain ⟨last, performed, _⟩ := mirror.performed
  obtain ⟨frees, all, _⟩ := recorded
  rw [all, Machine.perform_append] at performed
  obtain ⟨_, reached, first, _⟩ := Action.bind_eq_ok.mp performed
  obtain ⟨within, _⟩ := List.getElem?_eq_some_iff.mp cut.next
  have here := Machine.reached_of_perform (m := Machine.new g none) numbered covers safe rfl
    (Nat.le_of_lt within) first
  -- There the machine asks memory with the same limit for a block.
  have limit : reached.host.limit = g.limit := by
    have books := Machine.keeps_perform g.limit ⟨memory.value, memory.deriv, views⟩
      (p.instrs.take pc) 0 (Machine.new g none) ⟨rfl, rfl⟩
    rw [Action.left_of_ok first] at books
    exact books.limit
  have refused := here.refused holds.fresh.2 (by rwa [limit])
  rw [limit] at refused
  have ends : Machine.EndsAt Host.kernels _ p.instrs none pc reached _ :=
    .stopped cut.next nofun refused (.refused _ cut.asks)
  obtain ⟨m, _, clean, runs⟩ := here.runIn numbered _
  obtain ⟨left, ran⟩ := runs none ends
  rw [← Machine.run_eq_runIn frame] at ran
  have books := Machine.keeps_runIn g.limit p ⟨memory.value, memory.deriv, views⟩
    (Machine.new g none) ⟨rfl, rfl⟩
  rw [← Machine.run_eq_runIn frame, Action.left, show Machine.new g none =
    (Machine.new g none).withPatience none from rfl, ran] at books
  -- Nothing was measured before, so the calls are those of the instructions.
  have calls (op : Op) : (m.withPatience left).meter.kernelCalls.count op =
      (p.instrs.take pc).countP (fun i => i.op = op) :=
    ((clean left).calls op).trans (Nat.zero_add _)
  have lent := books.lent.trans (calls .alloc)
  obtain ⟨v, checked, _⟩ := here.checked
  have booked := Validation.books checked
  refine ⟨m.withPatience left, ran, ⟨fun op _ => calls op, lent, ?_, (clean left).held⟩, ?_⟩
  · obtain ⟨count, allocations, releases⟩ := (clean left).balanced
    rw [← lent, allocations, releases]
    rfl
  · rw [calls, ← Instr.booked_live, booked.booked]
    exact booked.balance.symm

end Memory.Holds

/--
Measurements of an evaluation and of a run that stopped at the same place.

They differ in the calls for the blocks that were on loan there.
-/
structure Program.StopsAlike (p : Program α) (pc : Nat) (evaluated ran : Meter) : Prop where
  calls : ∀ op, op ≠ .free → ran.kernelCalls.count op = evaluated.kernelCalls.count op
  frees : evaluated.kernelCalls.count .free =
    ran.kernelCalls.count .free + (Program.liveAfter (p.instrs.take pc)).length
  allocations : ran.allocations = evaluated.allocations
  releases : ran.releases = evaluated.releases
  held : ran.liveElements = 0 ∧ evaluated.liveElements = 0

namespace Comparable

variable [Elem α] [Written α] {h g : Host α} {root : Expr α} {inputs : NameMap (Binding α View)}
  {value deriv : View} {memory : Memory}

/-- A compilation without a limit that succeeds, and one that does not under the limit of memory. -/
theorem exists_stop (comparable : Comparable h g root inputs value deriv memory) {p : Program α}
    (compiled : Program.compile root (Int64.ofNat value.length) (seedsOf inputs) 0 = .ok p)
    {cause : WalkError}
    (stopped : Program.compile root (Int64.ofNat value.length) (seedsOf inputs) h.limit =
      .error (.error (.walk cause))) :
    ∃ pc i, p.Cut h.limit pc i ∧
      cause = .alloc i.len (.recordLimit i.len (Instr.booked (p.instrs.take pc)).2 h.limit) ∧
      ∃ s m, (evaluate (Metered.backend Host.backend) root inputs value deriv).outcome (.new h) =
          (.error (.error (.walk (.alloc i.len (.memoryLimit i.len
            (Instr.booked (p.instrs.take pc)).2 h.limit)))), s) ∧
        (Machine.run Host.kernels p memory).outcome (Machine.new g none) =
          (.error (.error (.step pc i.text (.alloc (.memoryLimit i.len
            (Instr.booked (p.instrs.take pc)).2 h.limit)))), m) ∧
        p.StopsAlike pc s.meter m.meter := by
  obtain ⟨c, r, declares, recorded⟩ := Program.exists_of_compile_error stopped
  -- The recording without a limit goes on behind the block at which this one is cut.
  obtain ⟨pc, i, cut, after, rfl⟩ := Program.exists_cut compiled declares recorded
  obtain ⟨s, walked, evaluated, returned⟩ :=
    comparable.holds_own.walk_measured declares recorded after
  -- Both memories have the same limit, so the cut is the same for the evaluation and the run.
  rw [context_evaluationMemory] at walked
  rw [← comparable.limit] at cut recorded
  obtain ⟨m, ran, measured, onLoan⟩ :=
    comparable.holds.run_measured declares recorded compiled cut after
  rw [comparable.limit] at cut ran
  refine ⟨pc, i, cut, rfl, s, m, ?_, ran, ?_⟩
  · -- An evaluation is a walk, whose error it passes on.
    have stops := Action.eq_error_of_outcome walked
    rw [evaluate_eq_generate comparable.laid (Metered.backend Host.backend) root, Action.outcome,
      Action.adapt_error stops]
    rfl
  · exact {
      calls := fun op other => by rw [measured.calls op other, evaluated.calls op other]
      frees := by rw [returned, ← onLoan]
      allocations := by rw [measured.allocations, evaluated.allocations]
      releases := by rw [measured.releases, evaluated.releases]
      held := ⟨measured.held, evaluated.held⟩ }

/-- Without a limit a tree is compiled, and with one that is too small the walk is refused. -/
theorem compile_cases (comparable : Comparable h g root inputs value deriv memory)
    (accepted : root.validate = .ok ())
    (bound : ∀ name ∈ root.mentioned, ∃ b, inputs.find? name = some b)
    (countable : root.width * (value.length : Int) < 2 ^ 63)
    (limited : 0 < h.limit ∧ h.limit.toInt < root.width * (value.length : Int)) :
    (∃ p, Program.compile root (Int64.ofNat value.length) (seedsOf inputs) 0 = .ok p) ∧
    ∃ cause, Program.compile root (Int64.ofNat value.length) (seedsOf inputs) h.limit =
      .error (.error (.walk cause)) := by
  have holds := comparable.holds_own
  -- There are paths, no block is too broad to count, and every variable has its seed.
  have exact : (Int64.ofNat value.length).toInt = value.length :=
    Host.toInt_ofNat_of_le_room holds.few
  have some : 0 < Int64.ofNat value.length := by
    have := holds.laid.positive
    rw [Int64.lt_iff_toInt_lt, exact, Int64.toInt_zero]
    omega
  have few : root.broadest ≤ 2 ^ 63 := by
    have := Nat.le_mul_of_pos_left (max 1 root.broadest) holds.laid.positive
    have := Host.lt_of_le_room holds.small
    omega
  have seeded : ∀ name ∈ root.mentioned, ∃ seed, (seedsOf inputs).find? name = .some seed := by
    intro name named
    obtain ⟨b, found⟩ := bound name named
    exact ⟨b.seed, by simp [seedsOf, NameMap.find?_mapValues, found]⟩
  have admitted (limit : Int64) := (Program.exists_compile_iff limit accepted seeded some few
    (by have := holds.countable.2; omega)).trans
    (Expr.admitted_iff_of_countable some limit (by rwa [exact]))
  refine ⟨(admitted 0).mpr (.inl (Int64.le_refl 0)), ?_⟩
  -- A walk in memory shows which kind of error it is.
  rcases holds.compile_or_run with ⟨_, cause, _, _, failed, _⟩ | ⟨_, p, _, compiled, _⟩
  · exact ⟨cause, failed⟩
  · -- Within the limit there would have been room for the tree.
    have allowed := (admitted h.limit).mp ⟨p, compiled⟩
    rw [exact] at allowed
    obtain ⟨positive, scarce⟩ := limited
    rw [Int64.lt_iff_toInt_lt, Int64.toInt_zero] at positive
    rw [Int64.le_iff_toInt_le, Int64.toInt_zero] at allowed
    omega

end Comparable

/--
An evaluation and the run of the program stop at the same block, and differ in calls to free.

Where the limit of memory is below the need of a tree, the tree has a program without a limit.
Evaluating the tree and running the program are refused the same block, for the same cause. Both
have lent and taken back as many blocks, have nothing on loan, and have called every other kernel
equally often. The evaluation has called the kernel that frees once more for every temporary that
was live at the block, since the run gives these back without a call.
-/
theorem evaluate_stops_with_program [Elem α] [Written α] {h g : Host α} {root : Expr α}
    {inputs : NameMap (Binding α View)} {value deriv : View} {memory : Memory}
    (comparable : Comparable h g root inputs value deriv memory)
    (accepted : root.validate = .ok ())
    (bound : ∀ name ∈ root.mentioned, ∃ b, inputs.find? name = some b)
    (countable : root.width * (value.length : Int) < 2 ^ 63)
    (limited : 0 < h.limit ∧ h.limit.toInt < root.width * (value.length : Int))
    {kernels : MachineKernels α} (linked : Host.symbols.link = .ok kernels) :
    ∃ p pc i cause s m,
      Program.compile root (Int64.ofNat value.length) (seedsOf inputs) 0 = .ok p ∧
      p.instrs[pc]? = some i ∧ i.op = .alloc ∧
      (evaluate (Metered.backend Host.backend) root inputs value deriv).outcome (.new h) =
        (.error (.error (.walk (.alloc i.len cause))), s) ∧
      (Machine.run kernels p memory).outcome (Machine.new g none) =
        (.error (.error (.step pc i.text (.alloc cause))), m) ∧
      p.StopsAlike pc s.meter m.meter := by
  -- Without a limit the tree is compiled, and under the limit the walk is cut at one of its blocks.
  obtain rfl : kernels = Host.kernels := Except.ok.inj (linked.symm.trans Host.link_symbols)
  obtain ⟨⟨p, compiled⟩, cause, stopped⟩ :=
    comparable.compile_cases accepted bound countable limited
  obtain ⟨pc, i, cut, _, s, m, evaluated, ran, alike⟩ := comparable.exists_stop compiled stopped
  exact ⟨p, pc, i, _, s, m, compiled, cut.next, cut.asks, evaluated, ran, alike⟩

/-- A sum in a sum, which needs two blocks at once. -/
def nestedSum [Elem α] : Expr α := .add [.add [.const Elem.one]]

/-- Memory with both registers that can lend one of the blocks, but not both. -/
def scarceHost [Elem α] : Host α where
  store := ⟨#[#[Elem.zero, Elem.zero]]⟩
  live := []
  liveElements := 0
  limit := 3
  chunking := .sequential
  blank _ _ := Elem.zero

/-- The nested sum can be evaluated and run in the memory that is too small for it. -/
theorem scarce_comparable [Elem α] :
    Comparable (scarceHost : Host α) scarceHost nestedSum .empty ⟨0, 0, 1⟩ ⟨0, 1, 1⟩
      ⟨⟨0, 0, 1⟩, ⟨0, 1, 1⟩, .empty⟩ := by
  -- The registers lie in one block, and the sum mentions no variables.
  have ready : (scarceHost : Host α).Ready :=
    ⟨fun entry found => absurd found List.not_mem_nil, by decide, .inl (Int.le_refl 1)⟩
  have buffer {v : View} (among : v ∈ [(⟨0, 0, 1⟩ : View), ⟨0, 1, 1⟩]) :
      (scarceHost : Host α).store.Buffer v 1 := by
    simp only [List.mem_cons, List.not_mem_nil, or_false] at among
    rcases among with rfl | rfl
    all_goals exact ⟨Nat.le_refl 1, fun p below => by interval_cases p; rfl⟩
  have laid : (evaluationContext (.empty : NameMap (Binding α View)) ⟨0, 0, 1⟩ ⟨0, 1, 1⟩).Laid 1
      (scarceHost : Host α).store :=
    { paths := rfl
      positive := by decide
      value := buffer (by simp [evaluationContext])
      deriv := buffer (by simp [evaluationContext])
      apart := fun _ => .inl (Nat.le_refl 1)
      data := fun name b found => by simp [evaluationContext] at found }
  exact {
    ready
    fresh := ⟨rfl, rfl⟩
    laid
    holds :=
      { ready
        fresh := ⟨rfl, rfl⟩
        present := fun name known => by
          simp [NameMap.contains, seedsOf, NameMap.find?_mapValues] at known
        laid
        small := by show 1 * max 1 2 ≤ Host.room; decide
        countable := ⟨by show 0 ≤ _; decide, by show 2 ≤ _; decide⟩ }
    limit := rfl
    data := fun name b v found => by simp at found }

/-- The nested sum stops at the same block both ways. -/
theorem evaluate_stops_with_program_nested :
    Comparable (scarceHost : Host Float) scarceHost nestedSum .empty ⟨0, 0, 1⟩ ⟨0, 1, 1⟩
      ⟨⟨0, 0, 1⟩, ⟨0, 1, 1⟩, .empty⟩ ∧
    (nestedSum : Expr Float).validate = .ok () ∧
    ∃ (p : Program Float) (pc : Nat) (i : Instr Float) (cause : AllocError)
      (s : Metered (Host Float)) (m : Machine Float),
      Program.compile nestedSum 1 .empty 0 = .ok p ∧ p.instrs[pc]? = some i ∧ i.op = .alloc ∧
      (evaluate (Metered.backend Host.backend) nestedSum .empty ⟨0, 0, 1⟩ ⟨0, 1, 1⟩).outcome
        (.new scarceHost) = (.error (.error (.walk (.alloc i.len cause))), s) ∧
      (Machine.run Host.kernels p ⟨⟨0, 0, 1⟩, ⟨0, 1, 1⟩, .empty⟩).outcome
        (Machine.new scarceHost none) = (.error (.error (.step pc i.text (.alloc cause))), m) ∧
      p.StopsAlike pc s.meter m.meter :=
  -- Nothing is mentioned, and one block of the two is within the limit.
  ⟨scarce_comparable, rfl, evaluate_stops_with_program scarce_comparable rfl
    (fun name named => absurd named List.not_mem_nil) (by decide) (by decide) Host.link_symbols⟩

/-- The evaluation of the nested sum calls the kernel that frees more often than the run. -/
theorem nested_frees_differ :
    ∃ (p : Program Float) (s : Metered (Host Float)) (m : Machine Float)
      (left : Halt EvalError) (right : Halt RunError),
      Program.compile nestedSum 1 .empty 0 = .ok p ∧
      (evaluate (Metered.backend Host.backend) nestedSum .empty ⟨0, 0, 1⟩ ⟨0, 1, 1⟩).outcome
        (.new scarceHost) = (.error left, s) ∧
      (Machine.run Host.kernels p ⟨⟨0, 0, 1⟩, ⟨0, 1, 1⟩, .empty⟩).outcome
        (Machine.new scarceHost none) = (.error right, m) ∧
      m.meter.kernelCalls.count .free < s.meter.kernelCalls.count .free := by
  have comparable : Comparable (scarceHost : Host Float) _ _ _ _ _ _ := scarce_comparable
  have unnamed : ∀ name ∈ (nestedSum : Expr Float).mentioned, ∃ seed : Float,
      NameMap.find? .empty name = some seed := fun name named => absurd named List.not_mem_nil
  obtain ⟨⟨p, compiled⟩, _⟩ := comparable.compile_cases rfl
    (fun name named => absurd named List.not_mem_nil) (by decide) (by decide)
  -- The limit leaves room for the first of the two blocks.
  have first : Borrow.Admitted 1 3 ⟨2, 2⟩ := by
    refine ⟨by unfold Borrow.Refused; decide, ?_⟩
    rintro ⟨i, inside, misfit⟩
    revert i
    decide
  have second : Borrow.Refused 1 3 ⟨2, 4⟩ := by unfold Borrow.Refused; decide
  have blocks : (nestedSum : Expr Float).borrows 0 = [⟨2, 2⟩] ++ ⟨2, 4⟩ :: [] := rfl
  obtain ⟨halt, stopped, stops⟩ := Program.compile_stops 3 rfl unnamed (by decide) (by decide)
    (by decide) blocks (by simpa using first) (fun admitted => admitted.1 second)
  cases stops with
  | misfit _ lent _ => exact absurd second lent
  | refused cause _ =>
    obtain ⟨pc, i, cut, size, s, m, evaluated, ran, alike⟩ :=
      comparable.exists_stop compiled stopped
    have two : i.len = 2 := (WalkError.alloc.inj size).1.symm
    obtain ⟨_, _, safe⟩ := Program.safe_of_compile compiled (by decide) (by decide)
    have some := List.length_pos_iff.mpr (cut.live_ne_nil safe (by rw [two]; decide))
    refine ⟨p, s, m, _, _, compiled, evaluated, ran, ?_⟩
    have frees := alike.frees
    omega

end Tangent
