import Tangent.Proofs.Exec.Crew
import Tangent.Proofs.Exec.Moves

/-!
Runs of compiled programs do not interfere.

They may share memory, measurements and the data of variables, as long as no register of one has an
element in common with anything of another. Each of them then shows what it would show alone, at
every point of every schedule.
-/

namespace Tangent

variable {α : Type} [Elem α] [Written α] {count : Nat}

/-- A program from a tree whose blocks can be lent, with variables and blocks that are countable. -/
def Job.Compiled (job : Job α) : Prop :=
  ∃ root paths seeds limit, Program.compile root paths seeds limit = .ok job.program ∧
    (paths.toInt ≤ Host.room ∧ paths.toInt * root.broadest ≤ Host.room) ∧
    seeds.entries.length ≤ 2 ^ 63 ∧ root.blocks ≤ 2 ^ 63

/-- The instructions of a compiled program are tidy. -/
theorem Job.Compiled.tidy {job : Job α} (compiled : job.Compiled) :
    ∃ vars next, ∀ i ∈ job.program.instrs, i.Tidy vars next Host.room := by
  -- A recorder lists its instructions with the last one in front.
  obtain ⟨root, paths, seeds, limit, compiled, fits, countable⟩ := compiled
  obtain ⟨n, next, r, _, _, steady, _, _, _, _, instrs, _⟩ :=
    Program.steady_of_compile compiled Host.room_lt fits countable
  refine ⟨_, next, fun i listed => steady.tidy i ?_⟩
  rw [instrs] at listed
  exact List.mem_reverse.mp listed

/-- How many turns a run has had. -/
def Progress.turns (run : Progress) : Nat := run.done + if run.ended.isSome then 1 else 0

/-- How many of the instructions that a run has performed use an operation. -/
def Job.calls (job : Job α) (op : Op) (run : Progress) : Nat :=
  (job.program.instrs.take run.done).countP (fun i => i.op = op)

/-- Jobs in the first `base` blocks whose registers are apart from all else that is used. -/
structure Job.Apart (jobs : Fin count → Job α) (base : Nat) : Prop where
  own : ∀ j, (jobs j).frame.Apart base
  others : ∀ j k, j ≠ k → ∀ w ∈ (jobs j).frame.registers, ∀ v ∈ (jobs k).frame.buffers,
    w.Disjoint v

namespace Crew

/-- A run that is amid its instructions or has ended well, and shows what they make of its start. -/
structure Along (h : Host α) (job : Job α) (crew : Crew α count) (j : Fin count) : Prop where
  checked : ∃ v w, (crew.machine j).Underway h.store.blocks.size v ∧
    job.program.checkInstrs v (crew.runs j).done (job.program.instrs.drop (crew.runs j).done) =
      .ok w ∧ w.live = []
  within : (crew.runs j).done ≤ job.program.instrs.length
  ended : (crew.runs j).ended = none ∨
    (crew.runs j).ended = some (.ok ()) ∧ (crew.runs j).done = job.program.instrs.length
  shown : job.frame.contents crew.host.store (crew.runs j).temps =
    (job.program.instrs.take (crew.runs j).done).foldl Instr.act (job.frame.contents h.store [])

/-- What holds of runs that share memory, from a start with memory `h` on. -/
structure Sound (h : Host α) (meter : Meter) (jobs : Fin count → Job α) (crew : Crew α count) :
    Prop where
  plain : crew.host.Plain
  along : ∀ j, crew.Along h (jobs j) j
  apart : ∀ j k, j ≠ k → ∀ a ∈ (crew.runs j).temps, ∀ b ∈ (crew.runs k).temps,
    a.2.block ≠ b.2.block
  changed : h.store.Changes
    (fun block p => ∃ j, ∃ v ∈ (jobs j).frame.registers, v.spots v.length block p) crew.host.store
  earlier : crew.host.live.filter (fun entry => entry.1 < h.store.blocks.size) = h.live
  owned : ∀ entry ∈ crew.host.live, h.store.blocks.size ≤ entry.1 →
    ∃ j, ∃ temp ∈ (crew.runs j).temps, temp.2.block = entry.1
  elements : crew.host.liveElements =
    h.liveElements + Int64.ofNat (∑ j, (crew.runs j).temps.held)
  calls : ∀ op, crew.meter.kernelCalls.count op =
    meter.kernelCalls.count op + ∑ j, (jobs j).calls op (crew.runs j)

/-- What a turn of a run makes of the others and itself. -/
inductive Turn (h : Host α) (jobs : Fin count → Job α) (crew : Crew α count) (j : Fin count) :
    Crew α count → Prop where
  /-- A run that has ended does nothing. -/
  | idle (ended : (crew.runs j).ended.isSome) : Turn h jobs crew j crew
  /-- An instruction is performed. -/
  | moves {i : Instr α} {m : Machine α} (going : (crew.runs j).ended = none)
    (next : (jobs j).program.instrs[(crew.runs j).done]? = some i)
    (moved : Machine.Moves (jobs j).frame i (crew.machine j) m)
    (along : (crew.put j m ((crew.runs j).done + 1) none).Along h (jobs j) j) :
    Turn h jobs crew j (crew.put j m ((crew.runs j).done + 1) none)
  /-- A run ends well behind its last instruction. -/
  | ends (going : (crew.runs j).ended = none)
    (last : (crew.runs j).done = (jobs j).program.instrs.length) :
    Turn h jobs crew j (crew.put j { crew.machine j with meter := crew.meter.run true }
      (crew.runs j).done (some (.ok ())))

variable {h : Host α} {meter : Meter} {jobs : Fin count → Job α} {crew crew' : Crew α count}
  {j k : Fin count}

/-- Nothing has happened before the first turn. -/
theorem Sound.start (plain : h.Plain) (numbered : h.Numbered) (meter : Meter)
    (jobs : Fin count → Job α) : (start h meter).Sound h meter jobs where
  plain := plain
  along j := {
    checked := by
      -- The program was checked as a whole, from where nothing is live.
      obtain ⟨safe, _⟩ := Machine.covers_of_prepare (jobs j).prepared
      obtain ⟨_, w, checked⟩ := Program.checkInstrs_of_validate safe
      refine ⟨⟨[], []⟩, w, ?_, checked, Program.live_of_validate safe checked⟩
      exact ⟨⟨rfl, by simp [machine, Crew.start], by simp [machine, Crew.start]⟩,
        by simp [Validation.Begun, TempTable.find?], List.Pairwise.nil,
        by simp [machine, Crew.start], by simp [machine, Crew.start], Nat.le_refl _⟩
    within := Nat.zero_le _
    ended := .inl rfl
    shown := rfl }
  apart := by simp [Crew.start]
  changed := .refl _ _
  earlier := List.filter_eq_self.mpr (fun entry held => by simpa using numbered entry held)
  owned entry held later := absurd (numbered entry held) (Nat.not_lt.mpr later)
  elements := by simp [Crew.start, TempTable.held]
  calls op := by simp [Crew.start, Job.calls]

/-- At its end a run has no temporaries left. -/
theorem Along.returned {job : Job α} (along : crew.Along h job j)
    (last : (crew.runs j).done = job.program.instrs.length) : (crew.runs j).temps = [] := by
  obtain ⟨v, w, under, checked, left⟩ := along.checked
  rw [last, List.drop_length] at checked
  -- The check has nothing left to look at, and counts none as live.
  obtain rfl := Except.ok.inj checked
  have sizes := under.tracks.sizes
  rw [left] at sizes
  exact List.map_eq_nil_iff.mp sizes.symm

/-- A run has at most one turn for each instruction and one for its end. -/
theorem Along.turns_le {job : Job α} (along : crew.Along h job j) :
    (crew.runs j).turns ≤ job.program.instrs.length + 1 := by
  -- A run that goes on has still its end before it.
  have within := along.within
  unfold Progress.turns
  split <;> omega

/-- A run ends with the turn behind its last instruction. -/
theorem Along.ended_eq {job : Job α} (along : crew.Along h job j) :
    (crew.runs j).ended =
      if (crew.runs j).turns = job.program.instrs.length + 1 then some (.ok ()) else none := by
  -- Before its end a run has had a turn for each instruction at most.
  have within := along.within
  rcases along.ended with going | ⟨ended, last⟩
  · rw [if_neg (by simp [Progress.turns, going]; omega), going]
  · rw [if_pos (by simp [Progress.turns, ended, last]), ended]

/-- In its turn a run moves on, or ends with everything given back. -/
theorem Sound.turn (sound : crew.Sound h meter jobs) (apart : Job.Apart jobs h.store.blocks.size)
    (compiled : ∀ j, (jobs j).Compiled) (j : Fin count) :
    Turn h jobs crew j (crew.advance Host.kernels jobs j) := by
  have along := sound.along j
  rcases along.ended with going | ⟨ended, _⟩
  · rcases Nat.lt_or_ge (crew.runs j).done (jobs j).program.instrs.length with more | last
    · -- The check accepts the next instruction, so the machine performs it.
      obtain ⟨v, w, under, checked, left⟩ := along.checked
      rw [List.drop_eq_getElem_cons more] at checked
      obtain ⟨v', accepted, rest⟩ := Program.checkInstrs_cons_ok checked
      obtain ⟨vars, next, tidy⟩ := (compiled j).tidy
      have fits := tidy _ (List.getElem_mem more)
      obtain ⟨_, covers⟩ := Machine.covers_of_prepare (jobs j).prepared
      obtain ⟨m, stepped, moves, shows⟩ :=
        under.step sound.plain (apart.own j) covers accepted fits
      have after := under.of_step covers accepted fits stepped moves
      rw [advance_ok going (List.getElem?_eq_getElem more) stepped]
      refine .moves going (List.getElem?_eq_getElem more) moves ⟨⟨v', w, ?_, ?_, left⟩, ?_, ?_, ?_⟩
      · rw [machine_put moves.patience]
        exact after
      · simpa [put] using rest
      · simpa [put] using more
      · exact .inl (by simp [put])
      · -- The instruction acts on what the others before it have made.
        simp only [put, Function.update_self]
        rw [shows, List.take_succ_eq_append_getElem more, List.foldl_append, ← along.shown]
        rfl
    · -- Nothing is left to perform, and nothing to give back.
      have last := Nat.le_antisymm along.within last
      rw [advance_last going (Nat.le_of_eq last.symm), close_ok (along.returned last)]
      exact .ends going last
  · rw [advance_ended (by rw [ended]; rfl)]
    exact .idle (by rw [ended]; rfl)

/-- What a run writes to has no element in common with the buffers of another. -/
theorem Sound.disjoint (sound : crew.Sound h meter jobs)
    (apart : Job.Apart jobs h.store.blocks.size) (differ : j ≠ k) :
    ∀ u ∈ (jobs j).frame.writable (crew.runs j).temps, ∀ r v,
      (jobs k).frame.find? (crew.runs k).temps r = some v → u.Disjoint v := by
  obtain ⟨_, _, mine, _⟩ := (sound.along j).checked
  obtain ⟨_, _, theirs, _⟩ := (sound.along k).checked
  intro u writes r v found
  rcases List.mem_append.mp writes with register | borrowed
  · -- A register of one run is apart from the buffers of another, and a temporary from all of them.
    by_cases temp : r.space = .temp
    · -- A temporary has a later block than any register.
      have new := theirs.fresh _ (Frame.mem_of_find?_temp found temp)
      have old := (apart.own j).old u (List.mem_append_left _ register)
      exact View.disjoint_of_ne (Nat.ne_of_lt (Nat.lt_of_lt_of_le old new))
    · exact apart.others j k differ u register v (Frame.mem_buffers found temp)
  · obtain ⟨entry, listed, rfl⟩ := List.mem_map.mp borrowed
    by_cases temp : r.space = .temp
    · exact View.disjoint_of_ne
        (sound.apart j k differ entry listed _ (Frame.mem_of_find?_temp found temp))
    · have new := mine.fresh entry listed
      have old := (apart.own k).old v (Frame.mem_buffers found temp)
      exact View.disjoint_of_ne (Nat.ne_of_gt (Nat.lt_of_lt_of_le old new))

/-- An instruction of one run keeps the others going. -/
theorem Sound.aside (sound : crew.Sound h meter jobs) (apart : Job.Apart jobs h.store.blocks.size)
    {i : Instr α} {m : Machine α} (moved : Machine.Moves (jobs j).frame i (crew.machine j) m)
    (done : Nat) (ended : Option (Except (Halt RunError) Unit)) (differ : k ≠ j) :
    (crew.put j m done ended).Along h (jobs k) k := by
  -- The instruction changes registers and temporaries of its own run, and no other run has them.
  obtain ⟨⟨v, w, under, checked, left⟩, within, ends, shown⟩ := sound.along k
  have kept : (crew.put j m done ended).runs k = crew.runs k := runs_put differ m done ended
  refine ⟨⟨v, w, ?_, by rw [kept]; exact checked, left⟩, by rw [kept]; exact within,
    by rw [kept]; exact ends, ?_⟩
  · exact moved.aside under rfl rfl (congrArg Progress.temps kept)
      (sound.apart j k (Ne.symm differ))
  · rw [kept, ← shown]
    exact moved.contents_aside (fun r v found => under.block_lt (apart.own k) found)
      (sound.disjoint apart (Ne.symm differ))

section Moved

variable {i : Instr α} {m : Machine α}

/-- After an instruction of one run, runs still have no block in common. -/
theorem Sound.apart_moved (sound : crew.Sound h meter jobs)
    (moved : Machine.Moves (jobs j).frame i (crew.machine j) m) (done : Nat)
    (ended : Option (Except (Halt RunError) Unit)) {l : Fin count} (differ : k ≠ l) :
    ∀ a ∈ ((crew.put j m done ended).runs k).temps,
      ∀ b ∈ ((crew.put j m done ended).runs l).temps, a.2.block ≠ b.2.block := by
  -- A new temporary has the next block, which no other run has.
  have fresh {k : Fin count} (other : k ≠ j) :
      ∀ a ∈ m.temps, ∀ b ∈ (crew.runs k).temps, a.2.block ≠ b.2.block := by
    intro a mine b theirs
    obtain ⟨_, _, under, _⟩ := (sound.along k).checked
    rcases moved.temps_cases a mine with old | new
    · exact sound.apart j k (Ne.symm other) a old b theirs
    · rw [new]
      exact Nat.ne_of_gt (under.tracks.blocks b theirs).2.2.2.1
  intro a first b second
  -- The temporaries of the run that has moved are compared with those of the others.
  by_cases mine : k = j
  · subst mine
    rw [runs_put_self] at first
    rw [runs_put (Ne.symm differ)] at second
    exact fresh (Ne.symm differ) a first b second
  · rw [runs_put mine] at first
    by_cases yours : l = j
    · subst yours
      rw [runs_put_self] at second
      exact (fresh mine b second a first).symm
    · rw [runs_put yours] at second
      exact sound.apart k l differ a first b second

/-- After an instruction of one run, every loan of a later block is that of a temporary. -/
theorem Sound.owned_moved (sound : crew.Sound h meter jobs)
    (moved : Machine.Moves (jobs j).frame i (crew.machine j) m) (done : Nat)
    (ended : Option (Except (Halt RunError) Unit)) :
    ∀ entry ∈ m.host.live, h.store.blocks.size ≤ entry.1 →
      ∃ k, ∃ temp ∈ ((crew.put j m done ended).runs k).temps, temp.2.block = entry.1 := by
  obtain ⟨_, _, under, _⟩ := (sound.along j).checked
  intro entry held later
  rcases moved.live_cases under entry held with ⟨old, stays⟩ | ⟨temp, listed, same⟩
  · -- Who had the block before still has it.
    obtain ⟨k, temp, listed, same⟩ := sound.owned entry old later
    by_cases own : k = j
    · subst own
      exact ⟨k, temp, by rw [runs_put_self]; exact stays temp listed same, same⟩
    · exact ⟨k, temp, by rw [runs_put own]; exact listed, same⟩
  · exact ⟨j, temp, by rw [runs_put_self]; exact listed, same⟩

/-- After an instruction of one run, as many elements are on loan as the runs have. -/
theorem Sound.elements_moved (sound : crew.Sound h meter jobs)
    (moved : Machine.Moves (jobs j).frame i (crew.machine j) m) (done : Nat)
    (ended : Option (Except (Halt RunError) Unit)) :
    m.host.liveElements =
      h.liveElements + Int64.ofNat (∑ k, ((crew.put j m done ended).runs k).temps.held) := by
  obtain ⟨_, _, under, _⟩ := (sound.along j).checked
  have total : ∑ k, ((crew.put j m done ended).runs k).temps.held + (crew.runs j).temps.held =
      ∑ k, (crew.runs k).temps.held + m.temps.held :=
    sum_put (fun _ run => run.temps.held) m _ _
  have sizes := congrArg Int64.ofNat total
  rw [Int64.ofNat_add, Int64.ofNat_add] at sizes
  have lent : m.host.liveElements + Int64.ofNat (crew.runs j).temps.held =
      crew.host.liveElements + Int64.ofNat m.temps.held := moved.elements under
  -- Both sums change by what the run has more of.
  rw [sound.elements, Int64.add_assoc, ← sizes, ← Int64.add_assoc] at lent
  exact (Int64.add_left_inj _).mp lent

/-- After an instruction of one run, each call is that of an instruction that was performed. -/
theorem Sound.calls_moved (sound : crew.Sound h meter jobs)
    (next : (jobs j).program.instrs[(crew.runs j).done]? = some i)
    (moved : Machine.Moves (jobs j).frame i (crew.machine j) m)
    (ended : Option (Except (Halt RunError) Unit)) (op : Op) :
    m.meter.kernelCalls.count op = meter.kernelCalls.count op +
      ∑ k, (jobs k).calls op ((crew.put j m ((crew.runs j).done + 1) ended).runs k) := by
  have total : ∑ k, (jobs k).calls op ((crew.put j m ((crew.runs j).done + 1) ended).runs k) +
      (jobs j).calls op (crew.runs j) = ∑ k, (jobs k).calls op (crew.runs k) +
      (jobs j).calls op ⟨(crew.runs j).done + 1, m.temps, ended⟩ :=
    sum_put (fun k run => (jobs k).calls op run) m _ _
  -- The instruction is the next one of its run.
  have one : (jobs j).calls op ⟨(crew.runs j).done + 1, m.temps, ended⟩ =
      (jobs j).calls op (crew.runs j) + if i.op = op then 1 else 0 := by
    obtain ⟨more, rfl⟩ := List.getElem?_eq_some_iff.mp next
    rw [Job.calls, List.take_succ_eq_append_getElem more, List.countP_append,
      List.countP_singleton]
    simp only [decide_eq_true_eq]
    rfl
  have called : m.meter.kernelCalls.count op =
      crew.meter.kernelCalls.count op + if i.op = op then 1 else 0 := moved.count op
  have before := sound.calls op
  omega

/-- An instruction of one run keeps what holds of all. -/
theorem Sound.moved (sound : crew.Sound h meter jobs) (apart : Job.Apart jobs h.store.blocks.size)
    (next : (jobs j).program.instrs[(crew.runs j).done]? = some i)
    (moved : Machine.Moves (jobs j).frame i (crew.machine j) m)
    (along : (crew.put j m ((crew.runs j).done + 1) none).Along h (jobs j) j) :
    (crew.put j m ((crew.runs j).done + 1) none).Sound h meter jobs := by
  obtain ⟨_, _, under, _⟩ := (sound.along j).checked
  exact {
    plain := moved.plain sound.plain
    along := fun k => by
      by_cases same : k = j
      · exact same ▸ along
      · exact sound.aside apart moved _ _ same
    apart := fun _ _ differ => sound.apart_moved moved _ _ differ
    changed := by
      -- What an instruction changes is a register or a temporary of its run.
      refine sound.changed.trans moved.changes ?_
      rintro block p old ⟨u, writes, same, inside⟩
      rcases List.mem_append.mp writes with register | borrowed
      · exact ⟨j, u, register, same, inside⟩
      · -- The block of a temporary was not there at the start.
        obtain ⟨entry, listed, rfl⟩ := List.mem_map.mp borrowed
        exact absurd (same ▸ old) (Nat.not_lt.mpr (under.fresh entry listed))
    earlier := (moved.earlier under).trans sound.earlier
    owned := sound.owned_moved moved _ _
    elements := sound.elements_moved moved _ _
    calls := sound.calls_moved next moved none }

end Moved

/-- Memory, calls and the progress of runs are all that matters, besides how runs have ended. -/
theorem Sound.of_same (sound : crew.Sound h meter jobs) (host : crew'.host = crew.host)
    (calls : crew'.meter.kernelCalls = crew.meter.kernelCalls)
    (done : ∀ k, (crew'.runs k).done = (crew.runs k).done)
    (temps : ∀ k, (crew'.runs k).temps = (crew.runs k).temps)
    (ended : ∀ k, (crew'.runs k).ended = (crew.runs k).ended ∨
      (crew'.runs k).ended = some (.ok ()) ∧
        (crew.runs k).done = (jobs k).program.instrs.length) : crew'.Sound h meter jobs where
  plain := by
    rw [host]
    exact sound.plain
  along k := by
    -- Each part is about what stays the same, and the end of a run is put down as a good one.
    obtain ⟨⟨v, w, under, checked, left⟩, within, ends, shown⟩ := sound.along k
    refine ⟨⟨v, w, under.of_same host (temps k), ?_, left⟩, ?_, ?_, ?_⟩
    · rw [done]
      exact checked
    · rw [done]
      exact within
    · rw [done]
      exact (ended k).elim (fun same => same ▸ ends) .inr
    · rw [host, done, temps]
      exact shown
  apart k l differ := by
    rw [temps, temps]
    exact sound.apart k l differ
  changed := by
    rw [host]
    exact sound.changed
  earlier := by
    rw [host]
    exact sound.earlier
  owned := by
    simp only [host, temps]
    exact sound.owned
  elements := by
    simp only [host, temps]
    exact sound.elements
  calls op := by
    simp only [calls, Job.calls, done]
    exact sound.calls op

/-- A turn keeps what holds of the runs. -/
theorem Sound.of_turn (sound : crew.Sound h meter jobs)
    (apart : Job.Apart jobs h.store.blocks.size) (turn : Turn h jobs crew j crew') :
    crew'.Sound h meter jobs := by
  cases turn with
  | idle => exact sound
  | moves going next moved along => exact sound.moved apart next moved along
  | ends going last =>
    -- The end of the run is put down and counted, which is not a call of a kernel.
    refine sound.of_same rfl rfl (fun k => ?_) (fun k => ?_) (fun k => ?_)
    all_goals by_cases same : k = j
    · rw [same, runs_put_self]
    · rw [runs_put same]
    · rw [same, runs_put_self]
      rfl
    · rw [runs_put same]
    · rw [same, runs_put_self]
      exact .inr ⟨rfl, last⟩
    · exact .inl (by rw [runs_put same])

/-- Runs stay sound whatever the schedule. -/
theorem Sound.follow (sound : crew.Sound h meter jobs)
    (apart : Job.Apart jobs h.store.blocks.size) (compiled : ∀ j, (jobs j).Compiled)
    (schedule : List (Fin count)) :
    (crew.follow Host.kernels jobs schedule).Sound h meter jobs := by
  -- Each turn keeps what the rest of the schedule starts from.
  induction schedule generalizing crew with
  | nil => exact sound
  | cons j rest ih => exact ih (sound.of_turn apart (sound.turn apart compiled j))

/-- A turn counts for the run that has it, until it has ended. -/
theorem Turn.turns_eq (turn : Turn h jobs crew j crew') (along : crew.Along h (jobs j) j)
    (k : Fin count) :
    (crew'.runs k).turns = if k = j
      then min ((crew.runs j).turns + 1) ((jobs j).program.instrs.length + 1)
      else (crew.runs k).turns := by
  cases turn with
  | idle ended =>
    -- A run that has ended has had a turn for each instruction and one for its end.
    split
    · rename_i same
      subst same
      rcases along.ended with going | ⟨_, last⟩
      · simp [going] at ended
      · simp [Progress.turns, ended, last]
    · rfl
  | moves going next moved along' =>
    -- An instruction that is performed is a turn more.
    have more := (List.getElem?_eq_some_iff.mp next).1
    split
    · rename_i same
      subst same
      rw [runs_put_self]
      simp only [Progress.turns, going, Option.isSome_none, Bool.false_eq_true, if_false]
      omega
    · rename_i other
      rw [runs_put other]
  | ends going last =>
    split
    · rename_i same
      subst same
      rw [runs_put_self]
      simp [Progress.turns, going, last]
    · rename_i other
      rw [runs_put other]

/-- Runs have as many turns as the schedule gives them, until they have ended. -/
theorem Sound.turns_follow (sound : crew.Sound h meter jobs)
    (apart : Job.Apart jobs h.store.blocks.size) (compiled : ∀ j, (jobs j).Compiled)
    (schedule : List (Fin count)) (k : Fin count) :
    ((crew.follow Host.kernels jobs schedule).runs k).turns =
      min ((crew.runs k).turns + schedule.count k) ((jobs k).program.instrs.length + 1) := by
  induction schedule generalizing crew with
  | nil =>
    have bound := (sound.along k).turns_le
    rw [List.count_nil, Nat.add_zero, Nat.min_eq_left bound]
    rfl
  | cons j rest ih =>
    have turn := sound.turn apart compiled j
    have rest := ih (sound.of_turn apart turn)
    rw [turn.turns_eq (sound.along j) k] at rest
    rw [List.count_cons]
    refine rest.trans ?_
    -- Past the end of a run its turns are cut off, whenever they come.
    by_cases same : k = j
    · subst same
      simp only [if_true, beq_self_eq_true]
      omega
    · have other : (j == k) = false := by simpa using Ne.symm same
      simp [same, other]

/-- Runs that are given turns by a schedule, each of which goes as if there were no other. -/
structure Undisturbed (k : MachineKernels α) (h : Host α) (meter : Meter)
    (jobs : Fin count → Job α) (schedule : List (Fin count)) (crew : Crew α count) : Prop where
  /-- A run ends well once it has had all its turns, and before that it has not ended. -/
  ended : ∀ j, (crew.runs j).ended =
    if (jobs j).program.instrs.length < schedule.count j then some (.ok ()) else none
  /-- A run that has ended leaves in its registers what it would leave there alone. -/
  alone : ∀ j, (crew.runs j).ended.isSome →
    ∃ m, Machine.run k (jobs j).program (jobs j).memory ⟨h, meter, none, []⟩ = .ok () m ∧
      crew.host.contents (jobs j).memory.value = m.host.contents (jobs j).memory.value ∧
      crew.host.contents (jobs j).memory.deriv = m.host.contents (jobs j).memory.deriv
  data : ∀ j, ∀ v ∈ (jobs j).frame.vars, crew.host.contents v = h.contents v
  /-- When all runs have ended, what was on loan before is on loan, and each kernel was counted. -/
  returned : (∀ j, (crew.runs j).ended.isSome) → crew.host.loans = h.loans ∧
    ∀ op, crew.meter.kernelCalls.count op =
      meter.kernelCalls.count op + ∑ j, (jobs j).program.count op

/-- A run that has ended has performed all its instructions. -/
theorem Along.last {job : Job α} (along : crew.Along h job j)
    (ended : (crew.runs j).ended.isSome) : (crew.runs j).done = job.program.instrs.length := by
  -- A run that goes on has no end yet.
  rcases along.ended with going | ⟨_, last⟩
  · simp [going] at ended
  · exact last

/-- A run that has ended shows what all its instructions make of its start. -/
theorem Along.shown_last {job : Job α} (along : crew.Along h job j)
    (ended : (crew.runs j).ended.isSome) :
    job.frame.contents crew.host.store [] =
      job.program.instrs.foldl Instr.act (job.frame.contents h.store []) := by
  -- All temporaries were given back, and all instructions were taken.
  have last := along.last ended
  have shown := along.shown
  rwa [along.returned last, last, List.take_length] at shown

/-- When all runs have ended, nothing is on loan that was not on loan before. -/
theorem Sound.loans (sound : crew.Sound h meter jobs)
    (ended : ∀ j, (crew.runs j).ended.isSome) : crew.host.loans = h.loans := by
  have returned (j : Fin count) : (crew.runs j).temps = [] :=
    (sound.along j).returned ((sound.along j).last (ended j))
  have live : crew.host.live = h.live := by
    rw [← sound.earlier, List.filter_eq_self.mpr]
    intro entry held
    -- A loan of a later block would be that of a temporary.
    by_contra later
    obtain ⟨j, temp, listed, _⟩ := sound.owned entry held (by simpa using later)
    simp [returned] at listed
  have elements := sound.elements
  simp only [returned, TempTable.held, List.map_nil, List.sum_nil, Finset.sum_const_zero]
    at elements
  exact Prod.ext live (elements.trans (Int64.add_zero _))

/-- When all runs have ended, all their instructions were counted. -/
theorem Sound.calls_last (sound : crew.Sound h meter jobs)
    (ended : ∀ j, (crew.runs j).ended.isSome) (op : Op) :
    crew.meter.kernelCalls.count op =
      meter.kernelCalls.count op + ∑ j, (jobs j).program.count op := by
  -- The instructions that were taken are all there are.
  have each (j : Fin count) : (jobs j).calls op (crew.runs j) = (jobs j).program.count op := by
    rw [Job.calls, (sound.along j).last (ended j), List.take_length]
    rfl
  rw [sound.calls op, Finset.sum_congr rfl (fun j _ => each j)]

/-- What is no register of any run is as it was. -/
theorem Sound.contents_eq (sound : crew.Sound h meter jobs) {v : View}
    (old : v.block < h.store.blocks.size)
    (disjoint : ∀ j, ∀ u ∈ (jobs j).frame.registers, u.Disjoint v) :
    crew.host.contents v = h.contents v := by
  -- An element that has changed is one of a register.
  refine Store.contentsFrom_congr (fun p _ below => sound.changed.keeps v.block _ old ?_)
  rintro ⟨j, u, register, same, first, last⟩
  have order := disjoint j u register same.symm
  omega

end Crew

open Crew in
/-- A run alone shows what its instructions make of its start. -/
theorem Job.Compiled.run_alone {job : Job α} (compiled : job.Compiled) {h : Host α}
    (plain : h.Plain) (numbered : h.Numbered) (apart : job.frame.Apart h.store.blocks.size)
    (meter : Meter) :
    ∃ m, Machine.run Host.kernels job.program job.memory ⟨h, meter, none, []⟩ = .ok () m ∧
      job.frame.contents m.host.store [] =
        job.program.instrs.foldl Instr.act (job.frame.contents h.store []) := by
  -- It is a run among no others, with all the turns it needs.
  have jobs : Job.Apart (fun _ : Fin 1 => job) h.store.blocks.size :=
    ⟨fun _ => apart, fun j k differ => absurd (Subsingleton.elim j k) differ⟩
  have sound := (Sound.start plain numbered meter (fun _ : Fin 1 => job)).follow jobs
    (fun _ => compiled) (List.replicate (job.program.instrs.length + 1) 0)
  obtain ⟨done, whole⟩ := follow_alone (k := Host.kernels) job h meter
  rw [whole] at sound
  have along := sound.along 0
  have shown := along.shown_last rfl
  -- The run has ended well, so it is not one that fails.
  cases ran : Machine.run Host.kernels job.program job.memory ⟨h, meter, none, []⟩ with
  | ok _ m =>
    simp only [Action.outcome, ran] at shown
    exact ⟨m, rfl, shown⟩
  | error halt m =>
    have ended := along.ended
    simp [Action.outcome, ran] at ended

/--
Runs of compiled programs that share memory do not interfere, whatever the order of their turns.

Memory has no limit, no register has an element in common with another buffer that is used, and the
data of variables may be shared. Then every run ends well, with what it would have in its registers
alone, all data stays, and in the end memory has the loans it started with and each kernel was
called as often as the programs say together.
-/
theorem concurrent_runs_undisturbed {h : Host α} {jobs : Fin count → Job α}
    {kernels : MachineKernels α} (linked : Host.symbols.link = .ok kernels) (plain : h.Plain)
    (numbered : h.Numbered) (compiled : ∀ j, (jobs j).Compiled)
    (apart : Job.Apart jobs h.store.blocks.size) (meter : Meter) (schedule : List (Fin count)) :
    ((Crew.start h meter).follow kernels jobs schedule).Undisturbed kernels h meter jobs
      schedule := by
  obtain rfl : kernels = Host.kernels := Except.ok.inj (linked.symm.trans Host.link_symbols)
  have start := Crew.Sound.start plain numbered meter jobs
  have sound := start.follow apart compiled schedule
  have turns := start.turns_follow apart compiled schedule
  exact {
    ended := fun j => by
      have none : ((Crew.start h meter : Crew α count).runs j).turns = 0 := rfl
      rw [(sound.along j).ended_eq, turns j, none]
      exact if_congr (by omega) rfl rfl
    alone := fun j ended => by
      -- Both runs show what the instructions make of the same start.
      obtain ⟨m, ran, shown⟩ := (compiled j).run_alone plain numbered (apart.own j) meter
      have same := ((sound.along j).shown_last ended).trans shown.symm
      obtain ⟨value, deriv⟩ := (jobs j).frame_eq
      rw [← value, ← deriv]
      have found : (jobs j).frame.find? [] Ref.value = some (jobs j).frame.value := rfl
      have found' : (jobs j).frame.find? [] Ref.deriv = some (jobs j).frame.deriv := rfl
      exact ⟨m, ran, Frame.contents_inj same found found, Frame.contents_inj same found' found'⟩
    data := fun j v listed => by
      have used : v ∈ (jobs j).frame.buffers := List.mem_append_right _ listed
      refine sound.contents_eq ((apart.own j).old v used) (fun k u register => ?_)
      -- Registers are apart from the data of their own run and from that of others.
      by_cases own : k = j
      · subst own
        exact (apart.own k).data v listed u register
      · exact apart.others k j own u register v used
    returned := fun ended => ⟨sound.loans ended, sound.calls_last ended⟩ }

/-- Memory for two runs: the data of a variable, and for each run a block with both registers. -/
def twinHost : Host Float where
  store := ⟨#[#[0, 1], #[0, 0, 0, 0], #[0, 0, 0, 0]]⟩
  live := []
  liveElements := 0
  limit := 0
  chunking := .sequential
  blank _ _ := Elem.zero

/-- The registers of one of the runs are the halves of its block. -/
def twinFrame (j : Fin 2) : Frame := ⟨⟨j + 1, 0, 2⟩, ⟨j + 1, 2, 2⟩, [⟨0, 0, 2⟩]⟩

/-- The memory of one of the runs, with the data that they share. -/
def twinMemory (j : Fin 2) : Memory :=
  ⟨(twinFrame j).value, (twinFrame j).deriv, .insert .empty "x" ⟨0, 0, 2⟩⟩

/-- The product is compiled, and can be run on the memory of both. -/
theorem exists_twins : ∃ jobs : Fin 2 → Job Float,
    ∀ j, (jobs j).Compiled ∧ (jobs j).memory = twinMemory j ∧ (jobs j).frame = twinFrame j := by
  -- One program serves both runs.
  obtain ⟨p, compiled⟩ := exists_compile_sample (α := Float)
  obtain ⟨paths, vars, safe⟩ := Program.safe_of_compile compiled (by decide) (by decide)
  have prepared (j : Fin 2) : Machine.prepare p (twinMemory j) = .ok (twinFrame j) := by
    refine Machine.prepare_ok safe (by rw [paths]; exact Int.le_refl 2)
      (by rw [paths]; exact Int.le_refl 2) ?_
    rw [paths, vars]
    rfl
  exact ⟨fun j => ⟨p, twinMemory j, twinFrame j, prepared j⟩, fun j =>
    ⟨⟨_, _, _, _, compiled, by decide, by decide⟩, rfl, rfl⟩⟩

/-- Neither of the runs has registers where the other has anything, or where the data is. -/
theorem twins_apart {jobs : Fin 2 → Job Float} (frames : ∀ j, (jobs j).frame = twinFrame j) :
    Job.Apart jobs 3 where
  -- Each run has a block of its own for its registers, and the data lies in a third one.
  own j := by
    rw [frames]
    refine ⟨fun v used => ?_, fun _ => .inl (Nat.le_refl 2), fun v listed w register same => ?_⟩
    · simp only [Frame.buffers, Frame.registers, twinFrame, List.cons_append, List.nil_append,
        List.mem_cons, List.not_mem_nil, or_false] at used
      rcases used with rfl | rfl | rfl <;> dsimp only <;> omega
    · simp only [Frame.registers, twinFrame, List.mem_cons, List.not_mem_nil, or_false]
        at listed register
      subst listed
      rcases register with rfl | rfl <;> simp at same
  others j k differ w register v used same := by
    rw [frames] at register used
    simp only [Frame.buffers, Frame.registers, twinFrame, List.cons_append, List.nil_append,
      List.mem_cons, List.not_mem_nil, or_false] at register used
    have apart : (j : Nat) ≠ k := fun equal => differ (Fin.ext equal)
    rcases register with rfl | rfl <;> rcases used with rfl | rfl | rfl <;> dsimp only at same <;>
      omega

/-- The product runs twice at a time on shared data, in any order of turns. -/
theorem concurrent_runs_undisturbed_twins :
    twinHost.Plain ∧ twinHost.Numbered ∧
    ∃ jobs : Fin 2 → Job Float, (∀ j, (jobs j).Compiled ∧ (jobs j).memory = twinMemory j) ∧
      Job.Apart jobs 3 ∧
      ∀ schedule, ((Crew.start twinHost .new).follow Host.kernels jobs schedule).Undisturbed
        Host.kernels twinHost .new jobs schedule := by
  -- The memory has no limit and lends nothing yet.
  have plain : twinHost.Plain :=
    ⟨Int64.le_refl 0, fun _ _ => rfl, by decide, .inl (Int.le_refl 1)⟩
  have numbered : twinHost.Numbered := fun entry found => absurd found List.not_mem_nil
  obtain ⟨jobs, twins⟩ := exists_twins
  have apart : Job.Apart jobs 3 := twins_apart (fun j => (twins j).2.2)
  exact ⟨plain, numbered, jobs, fun j => ⟨(twins j).1, (twins j).2.1⟩, apart, fun schedule =>
    concurrent_runs_undisturbed Host.link_symbols plain numbered (fun j => (twins j).1) apart .new
      schedule⟩

end Tangent
