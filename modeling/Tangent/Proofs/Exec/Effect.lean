import Tangent.Proofs.Exec.Safety

/-!
What instructions do.

An instruction has an effect on memory and on the temporaries, whatever is counted besides. A safe
instruction either has its effect, and its loan and its measurements with it, or has none at all.
-/

namespace Tangent

variable {α ν : Type}

/-- Memory and the temporaries of a run, which is what instructions work on. -/
structure Scene (α : Type) where
  store : Store α
  temps : TempTable View

namespace Instr

variable [Elem α]

/-- What an instruction does in memory that fills its blocks and cuts its ranges as `h` does. -/
def effect (h : Host α) (f : Frame) (s : Scene α) (i : Instr α) : Scene α :=
  let host := { h with store := s.store }
  match i.task with
  | .alloc =>
    -- The block stays in memory when the temporary ends, so numbers are never used twice.
    let n := i.len.toNatClampNeg
    ⟨(host.lend n).store, s.temps.insert i.dst.index (host.nextBlock n)⟩
  | .free => ⟨s.store, s.temps.erase i.dst.index⟩
  -- Only the range of elements that the operand stands for is worked on.
  | .one op =>
    let dst := f.part s.temps i.dst i.len
    ⟨(host.afterChunks i.len (op.onRange dst)).store, s.temps⟩
  | .two op =>
    let dst := f.part s.temps i.dst i.len
    let src := f.part s.temps i.src i.len
    ⟨(host.afterChunks i.len (op.onRange src dst)).store, s.temps⟩
  | .unknown _ => s

/-- What instructions do one after the other, from memory without temporaries on. -/
def effects (h : Host α) (f : Frame) (is : List (Instr α)) : Scene α :=
  is.foldl (effect h f) ⟨h.store, []⟩

/-- The effect of one more instruction comes last. -/
theorem effects_concat (h : Host α) (f : Frame) (is : List (Instr α)) (i : Instr α) :
    effects h f (is ++ [i]) = effect h f (effects h f is) i := by
  -- Effects are folded from the first instruction on.
  simp [effects]

end Instr

/-- Why a safe instruction may stop: its block is refused, or an access leads out of memory. -/
inductive Instr.Stops (i : Instr α) : Halt StepError → Prop where
  | refused (cause : AllocError) (asks : i.op = .alloc) : Stops i (.error (.alloc cause))
  | access : Stops i (.fault .access)

namespace TempTable

/-- The loans behind temporaries. -/
def loans (temps : TempTable View) : List (Nat × Int64) :=
  List.map (fun entry => (entry.2.block, Int64.ofNat entry.2.length)) temps

/-- The number of elements that temporaries have. -/
def held (temps : TempTable View) : Nat := (List.map (fun entry => entry.2.length) temps).sum

/-- A table that has one entry for each of its temporaries. -/
def Unique (table : TempTable ν) : Prop := List.Pairwise (fun a b => b.1 ≠ a.1) table

variable {table : TempTable ν} {index : Int64} {known : ν}

/-- No entry of a table is one for a temporary that is not found in it. -/
theorem ne_of_absent (absent : table.find? index = none) : ∀ entry ∈ table, entry.1 ≠ index := by
  -- The search would have ended at the entry.
  intro entry listed
  have other := List.find?_eq_none.mp (Option.map_eq_none_iff.mp absent) entry listed
  simpa using other

/-- A temporary that is not in a table need not be forgotten. -/
theorem erase_absent (absent : table.find? index = none) : table.erase index = table := by
  -- Forgetting keeps all entries of other temporaries, and there are no others.
  apply List.filter_eq_self.mpr
  intro entry listed
  simpa using ne_of_absent absent entry listed

/-- A temporary that begins is entered in front of the others. -/
theorem insert_absent (absent : table.find? index = none) (new : ν) :
    table.insert index new = (index, new) :: table :=
  -- Entering a temporary forgets it first.
  congrArg _ (erase_absent absent)

/-- A temporary of a table has its place in it, and forgetting it takes out that place alone. -/
theorem Unique.split (unique : table.Unique) (found : table.find? index = some known) :
    ∃ later earlier : TempTable ν, table = later ++ (index, known) :: earlier ∧
      table.erase index = later ++ earlier := by
  -- The entry is the first with its number.
  obtain ⟨entry, listed, rfl⟩ := Option.map_eq_some_iff.mp found
  obtain ⟨same, later, earlier, rfl, before⟩ := List.find?_eq_some_iff_append.mp listed
  have named : entry.1 = index := by simpa using same
  refine ⟨later, earlier, by rw [← named], ?_⟩
  -- Entries before it have other numbers since it was found first, those after it as they differ.
  have behind : ∀ other ∈ earlier, other.1 ≠ index := by
    intro other member
    have apart := (List.pairwise_cons.mp (List.pairwise_append.mp unique).2.1).1 other member
    rwa [named] at apart
  have first : later.filter (fun other => other.1 != index) = later := by
    apply List.filter_eq_self.mpr
    intro other member
    simpa [bne] using before other member
  have second : earlier.filter (fun other => other.1 != index) = earlier := by
    apply List.filter_eq_self.mpr
    intro other member
    simpa using behind other member
  simp [erase, named, first, second]

/-- Forgetting a temporary leaves the elements of the others. -/
theorem Unique.held_erase {temps : TempTable View} {view : View} (unique : temps.Unique)
    (found : temps.find? index = some view) :
    temps.held = (temps.erase index).held + view.length := by
  -- Its place is between the others, and the sum does not depend on where.
  obtain ⟨later, earlier, split, rest⟩ := unique.split found
  rw [rest, split]
  simp only [held, List.map_append, List.map_cons, List.sum_append, List.sum_cons]
  omega

end TempTable

/-- A state of the check in which every live temporary has begun. -/
def Validation.Begun (v : Validation) : Prop :=
  ∀ index, (v.live.find? index).isSome → (v.seen.find? index).isSome

/-- A temporary that has not begun does not live. -/
theorem Validation.Begun.absent {v : Validation} {index : Int64} (begun : v.Begun)
    (unseen : v.seen.find? index = none) : v.live.find? index = none := by
  -- Whatever lives was seen when it began.
  by_contra known
  have seen := begun index (Option.isSome_iff_ne_none.mpr known)
  simp [unseen] at seen

/-- The check begins temporaries before they live. -/
theorem Validation.Begun.accepted {p : Program α} {v v' : Validation} {pc : Nat} {i : Instr α}
    (begun : v.Begun) (accepted : p.Accepted v pc i v') : v'.Begun := by
  intro index live
  cases accepted.follows with
  | begins =>
    -- The new temporary is entered in both tables.
    rw [TempTable.find?_insert] at live ⊢
    split
    · rfl
    · rename_i other
      rw [if_neg other] at live
      exact begun index live
  | ends =>
    -- The temporary that ends is still among those that have begun.
    rw [TempTable.find?_erase] at live
    split at live
    · simp at live
    · exact begun index live
  | keeps => exact begun index live

namespace Machine

/-- A machine that has performed instructions from a start without temporaries on. -/
structure Amid (start : Machine α) [Elem α] (f : Frame) (done : List (Instr α)) (m : Machine α) :
    Prop where
  scene : Instr.effects start.host f done = ⟨m.host.store, m.temps⟩
  cut : m.host.chunking = start.host.chunking
  blank : m.host.blank = start.host.blank
  grown : start.host.store.blocks.size ≤ m.host.store.blocks.size
  unique : m.temps.Unique
  fresh : ∀ entry ∈ m.temps, start.host.store.blocks.size ≤ entry.2.block
  lent : m.host.live = m.temps.loans ++ start.host.live
  elements : m.host.liveElements = start.host.liveElements + Int64.ofNat m.temps.held
  calls : ∀ op, m.meter.kernelCalls.count op =
    start.meter.kernelCalls.count op + done.countP (fun i => i.op = op)
  loans : ∃ ended, m.meter.releases = start.meter.releases + ended ∧
    m.meter.allocations = start.meter.allocations + ended + m.temps.length
  held : m.meter.liveElements = start.meter.liveElements + m.temps.held

end Machine

namespace Machine.Tracks

variable {m : Machine α} {v : Validation} {f : Frame} {p : Program α} {pc : Nat} {r : Ref}
  {n : Int64}

/-- Elements that the check accepts are found, unless their end is out of reach of integers. -/
theorem resolve_cases (tracks : m.Tracks v) (covers : f.Covers p)
    (accepted : p.checkOperand v pc r n = .ok ()) :
    (Machine.resolve f r n m = .ok (f.part m.temps r n) m ∧
      n.toInt ≤ (f.part m.temps r n).length) ∨
    Machine.resolve f r n m = .error (.fault .access) m := by
  -- Finding an operand goes wrong only where the sum of offset and length wraps around.
  by_cases wraps : r.Wraps n
  · exact .inr (tracks.resolve_wraps covers accepted wraps)
  · exact .inl (tracks.resolve_exact covers accepted wraps)

/-- A temporary that the check has not seen is not among those of the machine. -/
theorem absent (tracks : m.Tracks v) (begun : v.Begun) {index : Int64}
    (unseen : v.seen.find? index = none) : m.temps.find? index = none := by
  -- The machine and the check have the same temporaries.
  have dead := begun.absent unseen
  rw [tracks.sizes, TempTable.find?_mapValues] at dead
  exact Option.map_eq_none_iff.mp dead

/-- Of a step that was made, what is known of its end holds. -/
theorem Ends.of_ok {v' : Validation} {step : Action (Machine α) StepError Unit} {m' : Machine α}
    (ends : Ends m v v' step) (ran : step m = .ok () m') :
    m'.Tracks v' ∧ m'.patience = m.patience := by
  -- A step that was made did not stop.
  rcases ends with ⟨other, same, tracks, patience, _⟩ | ⟨cause, other, stopped, _⟩
  · rw [ran] at same
    obtain ⟨_, rfl⟩ := EStateM.Result.ok.inj same
    exact ⟨tracks, patience⟩
  · rw [ran] at stopped
    cases stopped

end Machine.Tracks

namespace Machine.Amid

variable [Elem α] {start m : Machine α} {f : Frame} {done : List (Instr α)} {i : Instr α}
  {v : Validation}

/-- What is counted for one more instruction is counted behind the others. -/
theorem count_bump (amid : Amid start f done m) (i : Instr α) (op : Op) :
    (m.meter.kernelCalls.bump i.op).count op =
      start.meter.kernelCalls.count op + (done ++ [i]).countP (fun i => i.op = op) := by
  -- The instruction itself is counted once more under its own operation.
  rw [Tally.count_bump, amid.calls, List.countP_append, List.countP_singleton]
  simp [Nat.add_assoc]

/-- A kernel does its work in memory and is counted. -/
theorem afterChunks (amid : Amid start f done m) {work : Nat → Nat → Store α → Store α}
    (still : ∀ first count s, (work first count s).blocks.size = s.blocks.size)
    (does : Instr.effect start.host f ⟨m.host.store, m.temps⟩ i =
      ⟨(m.host.afterChunks i.len work).store, m.temps⟩) :
    Amid start f (done ++ [i]) { m with
      host := m.host.afterChunks i.len work
      meter := m.meter.kernel i.op } where
  -- Only elements of memory and the number of calls change.
  scene := by rw [Instr.effects_concat, amid.scene, does]
  cut := amid.cut
  blank := amid.blank
  grown := by
    show _ ≤ (m.host.afterChunks i.len work).store.blocks.size
    rw [Host.size_afterChunks m.host i.len still]
    exact amid.grown
  unique := amid.unique
  fresh := amid.fresh
  lent := amid.lent
  elements := amid.elements
  calls := amid.count_bump i
  loans := amid.loans
  held := amid.held

/-- A temporary that begins has the next block. -/
theorem beginTemp (amid : Amid start f done m) (asks : i.op = .alloc) {n : Nat}
    (count : i.len = Int64.ofNat n) (small : n ≤ Host.room)
    (unknown : m.temps.find? i.dst.index = none) :
    Amid start f (done ++ [i]) { m with
      host := m.host.lend n
      meter := (m.meter.kernel .alloc).alloc i.len.toInt
      temps := m.temps.insert i.dst.index (m.host.nextBlock n) } := by
  have kept := TempTable.insert_absent unknown (m.host.nextBlock n)
  have size : i.len.toNatClampNeg = n := by
    rw [count, Int64.toNatClampNeg_ofNat_of_lt (Host.lt_of_le_room small)]
  have grown := m.host.size_lend n
  rw [kept]
  exact {
    scene := by
      -- The new block depends on the store and on what new blocks hold.
      rw [Instr.effects_concat, amid.scene, Instr.effect, Instr.task_eq_alloc.mpr asks]
      simp only [Host.lend, Host.nextBlock, ← amid.blank] at kept ⊢
      rw [size, kept]
    cut := amid.cut
    blank := amid.blank
    grown := by
      show _ ≤ (m.host.lend n).store.blocks.size
      have := amid.grown
      omega
    unique := List.pairwise_cons.mpr ⟨TempTable.ne_of_absent unknown, amid.unique⟩
    fresh := by
      intro entry listed
      rcases List.mem_cons.mp listed with rfl | listed
      · exact amid.grown
      · exact amid.fresh entry listed
    lent := by
      show (m.host.store.blocks.size, Int64.ofNat n) :: m.host.live = _
      rw [amid.lent]
      rfl
    elements := by
      show m.host.liveElements + Int64.ofNat n = _ + Int64.ofNat (n + m.temps.held)
      rw [amid.elements, Int64.ofNat_add, Int64.add_assoc, Int64.add_comm (Int64.ofNat n)]
    calls := asks ▸ amid.count_bump i
    loans := by
      obtain ⟨ended, releases, allocations⟩ := amid.loans
      refine ⟨ended, releases, ?_⟩
      show m.meter.allocations + 1 = _ + (m.temps.length + 1)
      omega
    held := by
      show m.meter.liveElements + i.len.toInt = _ + ((n + m.temps.held : Nat) : Int)
      rw [amid.held, count, Host.toInt_ofNat_of_le_room small]
      push_cast
      omega }

/-- The blocks of temporaries differ from each other and from those that were on loan before. -/
theorem apart (amid : Amid start f done m) (tracks : m.Tracks v) (numbered : start.host.Numbered)
    {later earlier : TempTable View} {index : Int64} {view : View}
    (split : m.temps = later ++ (index, view) :: earlier) :
    ∀ entry ∈ later.loans ++ (earlier.loans ++ start.host.live), entry.1 ≠ view.block := by
  -- Those before it and behind it in the table have other blocks.
  have distinct := tracks.distinct
  rw [split, List.pairwise_append, List.pairwise_cons] at distinct
  obtain ⟨_, ⟨behind, _⟩, before⟩ := distinct
  intro entry member
  rcases List.mem_append.mp member with member | member
  · obtain ⟨other, listed, rfl⟩ := List.mem_map.mp member
    exact (before other listed (index, view) (by simp)).symm
  rcases List.mem_append.mp member with member | member
  · obtain ⟨other, listed, rfl⟩ := List.mem_map.mp member
    exact behind other listed
  · -- A block that was there at the start has an earlier number than any temporary's.
    have old := numbered entry member
    have new := amid.fresh (index, view) (by simp [split])
    exact Nat.ne_of_lt (Nat.lt_of_lt_of_le old new)

/-- A temporary that ends gives its block back. -/
theorem endTemp (amid : Amid start f done m) (tracks : m.Tracks v)
    (numbered : start.host.Numbered) (ends : i.op = .free) {view : View}
    (known : m.temps.find? i.dst.index = some view) :
    ∃ h, (Host.free view : Action (Host α) StepError Unit) m.host = .ok () h ∧
      Amid start f (done ++ [i]) { m with
        host := h
        meter := (m.meter.kernel .free).release view.length
        temps := m.temps.erase i.dst.index } := by
  obtain ⟨later, earlier, split, rest⟩ := amid.unique.split known
  obtain ⟨first, nonempty, _⟩ := tracks.blocks (i.dst.index, view) (by simp [split])
  -- The loan of the block stands where the temporary does in the table.
  have lent : m.host.live = later.loans ++
      (view.block, Int64.ofNat view.length) :: (earlier.loans ++ start.host.live) := by
    rw [amid.lent, split]
    simp [TempTable.loans]
  have total := amid.unique.held_erase known
  rw [rest] at total
  have fewer : (later ++ earlier).Sublist m.temps := by
    rw [split]
    exact (List.sublist_cons_self _ _).append_left later
  refine ⟨_, Host.free_among first nonempty lent (amid.apart tracks numbered split), ?_⟩
  rw [rest]
  exact {
    scene := by
      rw [Instr.effects_concat, amid.scene, Instr.effect, Instr.task_eq_free.mpr ends]
      simp only [rest]
    cut := amid.cut
    blank := amid.blank
    grown := amid.grown
    unique := amid.unique.sublist fewer
    fresh := fun entry listed => amid.fresh entry (fewer.subset listed)
    lent := by simp [TempTable.loans]
    elements := by
      -- What was added for the temporary is taken off again.
      show m.host.liveElements - Int64.ofNat view.length = _
      rw [amid.elements, total, Int64.ofNat_add, ← Int64.add_assoc, Int64.add_sub_cancel]
    calls := ends ▸ amid.count_bump i
    loans := by
      obtain ⟨ended, releases, allocations⟩ := amid.loans
      refine ⟨ended + 1, ?_, ?_⟩
      · show m.meter.releases + 1 = _
        omega
      · rw [split] at allocations
        simp only [List.length_append, List.length_cons] at allocations ⊢
        show m.meter.allocations = _
        omega
    held := by
      show m.meter.liveElements - (view.length : Int) = _
      rw [amid.held, total]
      push_cast
      omega }

/-- A safe instruction has its effect, or stops and leaves the machine as it was. -/
theorem step {p : Program α} {pc : Nat} {v' : Validation} (amid : Amid start f done m)
    (tracks : m.Tracks v) (begun : v.Begun) (numbered : start.host.Numbered)
    (covers : f.Covers p) (accepted : p.Accepted v pc i v') :
    (∃ m', Machine.step Host.kernels f i m = .ok () m' ∧ Amid start f (done ++ [i]) m' ∧
      m'.Tracks v' ∧ m'.patience = m.patience) ∨
    ∃ halt, Machine.step Host.kernels f i m = .error halt m ∧ i.Stops halt := by
  rw [Machine.step_eq]
  unfold Program.Accepted at accepted
  cases task : i.task with
  | alloc =>
    simp only [task] at accepted ⊢
    obtain ⟨positive, unseen, rfl⟩ := accepted
    have asks := Instr.task_eq_alloc.mp task
    rcases Host.alloc_cases (ε := StepError) i.len m.host with
      ⟨cause, refused⟩ | stopped | ⟨n, _, small, count, granted⟩
    · -- The block is refused, or there is no memory for it, or it is the next one.
      exact .inr ⟨_, Machine.beginTemp_refused refused, .refused cause asks⟩
    · exact .inr ⟨_, Action.bind_error (Machine.onHost_error stopped), .access⟩
    · have unknown := tracks.absent begun unseen
      have ran : Machine.beginTemp Host.kernels i.dst.index i.len m = .ok () _ :=
        Machine.beginTemp_ok granted
      have few : i.len.toInt ≤ Host.room := by
        rw [count, Host.toInt_ofNat_of_le_room small]
        exact_mod_cast small
      obtain ⟨tracks', patience⟩ := (tracks.beginTemp positive few _).of_ok ran
      exact .inl ⟨_, ran, amid.beginTemp asks count small unknown, tracks', patience⟩
  | free =>
    simp only [task] at accepted ⊢
    obtain ⟨live, rfl⟩ := accepted
    have ends := Instr.task_eq_free.mp task
    -- What is live in the check is a temporary of the machine.
    have known := live
    rw [tracks.sizes, TempTable.find?_mapValues, Option.isSome_map] at known
    obtain ⟨view, known⟩ := Option.isSome_iff_exists.mp known
    obtain ⟨h, freed, after⟩ := amid.endTemp tracks numbered ends known
    have ran := Machine.endTemp_ok known freed
    obtain ⟨tracks', patience⟩ := (tracks.endTemp live).of_ok ran
    exact .inl ⟨_, ran, after, tracks', patience⟩
  | one op =>
    simp only [task] at accepted ⊢
    obtain ⟨target, rfl⟩ := accepted
    -- The operand is found as far as its end can be counted.
    rcases tracks.resolve_cases covers target with ⟨found, long⟩ | stopped
    · refine .inl ⟨_, Machine.onOne_ok op found long, ?_,
        tracks.afterChunks _ (op.size_onRange _) _, rfl⟩
      apply amid.afterChunks (op.size_onRange _)
      simp only [Instr.effect, task, Host.afterChunks, amid.cut]
    · exact .inr ⟨_, Action.bind_error stopped, .access⟩
  | two op =>
    simp only [task] at accepted ⊢
    obtain ⟨source, target, rfl⟩ := accepted
    -- The destination is looked for first.
    rcases tracks.resolve_cases covers target with ⟨found, long⟩ | stopped
    · rcases tracks.resolve_cases covers source with ⟨found', long'⟩ | stopped
      · refine .inl ⟨_, Machine.onTwo_ok op found found' long long', ?_,
          tracks.afterChunks _ (op.size_onRange _ _) _, rfl⟩
        apply amid.afterChunks (op.size_onRange _ _)
        simp only [Instr.effect, task, Host.afterChunks, amid.cut]
      · exact .inr ⟨_, (Action.bind_ok found).trans (Action.bind_error stopped), .access⟩
    · exact .inr ⟨_, Action.bind_error stopped, .access⟩
  | unknown name => simp [task] at accepted

end Machine.Amid

end Tangent
