import Tangent.Proofs.Exec.Ending

/-!
Runs that share memory.

Runs take turns in any order. A turn is one instruction, and behind the last one the end of the run,
which counts the run and gives back what it still has on loan. A run that takes all turns is the run
of a machine.
-/

namespace Tangent

variable {α : Type} [Written α]

/-- A program with memory that it can run on. -/
structure Job (α : Type) [Written α] where
  program : Program α
  memory : Memory
  frame : Frame
  prepared : Machine.prepare program memory = .ok frame

/-- How far a run has come. -/
structure Progress where
  /-- The number of instructions that were performed. -/
  done : Nat
  temps : TempTable View
  /-- How the run ended, once it has. -/
  ended : Option (Except (Halt RunError) Unit)

/-- Memory and measurements that runs share, and how far each of them has come. -/
structure Crew (α : Type) (count : Nat) where
  host : Host α
  meter : Meter
  runs : Fin count → Progress

namespace Job

variable (k : MachineKernels α) (job : Job α)

/-- Ends a run the way its instructions ended. -/
def finish (body : Action (Machine α) RunError Unit) : Action (Machine α) RunError Unit :=
  (Machine.counted body).closing
    ((Machine.releaseAll k).adapt (.step job.program.instrs.length ""))

/-- How a run ends depends on how its instructions ended, and on nothing before. -/
theorem finish_congr {body body' : Action (Machine α) RunError Unit} {m m' : Machine α}
    (same : body m = body' m') : job.finish k body m = job.finish k body' m' := by
  -- Closing looks only at what its body ended with.
  simp only [finish, Action.closing, Machine.counted, same]

/-- The registers of a job are those of its memory. -/
theorem frame_eq : job.frame.value = job.memory.value ∧ job.frame.deriv = job.memory.deriv := by
  -- The registers are handed on when the variables are bound.
  obtain ⟨_, _, bound⟩ := ok_of_bind job.prepared
  unfold Frame.bind at bound
  split at bound
  · simp at bound
  · obtain ⟨views, _, same⟩ := ok_of_map bound
    exact ⟨by rw [← same], by rw [← same]⟩

end Job

namespace Crew

variable {count : Nat} (k : MachineKernels α) (jobs : Fin count → Job α)

/-- Before the first turn. -/
def start (h : Host α) (meter : Meter) : Crew α count := ⟨h, meter, fun _ => ⟨0, [], none⟩⟩

/-- The machine that a run uses in its turn. -/
def machine (crew : Crew α count) (j : Fin count) : Machine α :=
  ⟨crew.host, crew.meter, none, (crew.runs j).temps⟩

/-- Takes over what a run has done to the machine in its turn. -/
def put (crew : Crew α count) (j : Fin count) (m : Machine α) (done : Nat)
    (ended : Option (Except (Halt RunError) Unit)) : Crew α count :=
  ⟨m.host, m.meter, Function.update crew.runs j ⟨done, m.temps, ended⟩⟩

/-- Ends a run. -/
def close (crew : Crew α count) (j : Fin count) (body : Action (Machine α) RunError Unit)
    (m : Machine α) : Crew α count :=
  let (ended, m) := ((jobs j).finish k body).outcome m
  crew.put j m (crew.runs j).done (some ended)

/-- Lets a run take a turn. There is nothing left to do for a run that has ended. -/
def advance (crew : Crew α count) (j : Fin count) : Crew α count :=
  let run := crew.runs j
  if run.ended.isSome then crew else
  match (jobs j).program.instrs[run.done]? with
  | none => crew.close k jobs j (pure ()) (crew.machine j)
  | some i =>
    match Machine.perform k (jobs j).frame run.done [i] (crew.machine j) with
    | .ok () m => crew.put j m (run.done + 1) none
    | .error halt m => crew.close k jobs j (throw halt) m

/-- Lets runs take turns one after the other. -/
def follow (crew : Crew α count) (schedule : List (Fin count)) : Crew α count :=
  schedule.foldl (advance k jobs) crew

variable {k jobs} {crew : Crew α count} {j : Fin count}

/-- A run that has ended takes no more turns. -/
theorem advance_ended (ended : (crew.runs j).ended.isSome) : crew.advance k jobs j = crew := by
  -- A turn first asks whether the run has ended.
  simp [advance, ended]

/-- A turn performs the next instruction. -/
theorem advance_ok {i : Instr α} {m : Machine α} (open_ : (crew.runs j).ended = none)
    (next : (jobs j).program.instrs[(crew.runs j).done]? = some i)
    (stepped : Machine.step k (jobs j).frame i (crew.machine j) = .ok () m) :
    crew.advance k jobs j = crew.put j m ((crew.runs j).done + 1) none := by
  -- Without a limit on its patience a run is not canceled between instructions.
  have performed : Machine.perform k (jobs j).frame (crew.runs j).done [i] (crew.machine j) =
      .ok () m :=
    (Action.bind_ok (Machine.poll_ok rfl _)).trans
      ((Action.bind_ok (Action.adapt_ok stepped)).trans rfl)
  simp [advance, open_, next, performed]

/-- A turn ends a run that has no instruction left. -/
theorem advance_last (open_ : (crew.runs j).ended = none)
    (last : (jobs j).program.instrs.length ≤ (crew.runs j).done) :
    crew.advance k jobs j = crew.close k jobs j (pure ()) (crew.machine j) := by
  -- There is no instruction at this position.
  simp [advance, open_, List.getElem?_eq_none last]

omit [Written α] in
/-- The turn of a run leaves how far the others have come. -/
theorem runs_put {other : Fin count} (differ : other ≠ j) (m : Machine α) (done : Nat)
    (ended : Option (Except (Halt RunError) Unit)) :
    (crew.put j m done ended).runs other = crew.runs other :=
  -- Only the entry of the run itself is replaced.
  Function.update_of_ne differ _ _

omit [Written α] in
/-- The turn of a run tells how far it has come. -/
theorem runs_put_self (m : Machine α) (done : Nat)
    (ended : Option (Except (Halt RunError) Unit)) :
    (crew.put j m done ended).runs j = ⟨done, m.temps, ended⟩ :=
  -- The entry of the run is replaced.
  Function.update_self _ _ _

omit [Written α] in
/-- What is counted over all runs changes by what is counted of the one that has its turn. -/
theorem sum_put (measure : Fin count → Progress → Nat) (m : Machine α) (done : Nat)
    (ended : Option (Except (Halt RunError) Unit)) :
    ∑ k, measure k ((crew.put j m done ended).runs k) + measure j (crew.runs j) =
      ∑ k, measure k (crew.runs k) + measure j ⟨done, m.temps, ended⟩ := by
  -- The others contribute what they did before.
  have rest : ∑ k ∈ Finset.univ.erase j, measure k ((crew.put j m done ended).runs k) =
      ∑ k ∈ Finset.univ.erase j, measure k (crew.runs k) :=
    Finset.sum_congr rfl (fun k other => by rw [runs_put (Finset.ne_of_mem_erase other)])
  rw [← Finset.add_sum_erase _ _ (Finset.mem_univ j), rest,
    ← Finset.add_sum_erase Finset.univ (fun k => measure k (crew.runs k)) (Finset.mem_univ j),
    runs_put_self]
  omega

omit [Written α] in
/-- After its turn a run uses the machine it has left. -/
theorem machine_put {m : Machine α} (patient : m.patience = none) (done : Nat)
    (ended : Option (Except (Halt RunError) Unit)) : (crew.put j m done ended).machine j = m := by
  -- Memory and counters belong to all, and the rest of a machine is what a run keeps for itself.
  cases m
  cases patient
  simp [machine, put]

/-- A run without temporaries ends well behind its last instruction. -/
theorem close_ok (returned : (crew.runs j).temps = []) :
    crew.close k jobs j (pure ()) (crew.machine j) =
      crew.put j { crew.machine j with meter := crew.meter.run true } (crew.runs j).done
        (some (.ok ())) := by
  -- The end of the run is counted first, and then there is nothing to give back.
  have body : Machine.counted (pure ()) (crew.machine j) =
      .ok () { crew.machine j with meter := crew.meter.run true } := rfl
  have released : Machine.releaseAll k { crew.machine j with meter := crew.meter.run true } =
      .ok () { crew.machine j with meter := crew.meter.run true } :=
    Machine.releaseAll_nil k returned
  have finished : (jobs j).finish k (pure ()) (crew.machine j) =
      .ok () { crew.machine j with meter := crew.meter.run true } :=
    Action.closing_ok body (Action.adapt_ok released)
  simp only [close, Action.outcome, finished]

/-- A run that nobody else interferes with. -/
abbrev alone (m : Machine α) (done : Nat) (ended : Option (Except (Halt RunError) Unit)) :
    Crew α 1 :=
  ⟨m.host, m.meter, fun _ => ⟨done, m.temps, ended⟩⟩

omit [Written α] in
/-- After its turn a run without others is where the machine is. -/
theorem put_alone (m m' : Machine α) (pc done : Nat) (j : Fin 1)
    (ended ended' : Option (Except (Halt RunError) Unit)) :
    (alone m pc ended).put j m' done ended' = alone m' done ended' := by
  -- There is only one run, so its entry is the only one.
  simp only [put, alone, mk.injEq, true_and]
  funext other
  rw [Subsingleton.elim other j, Function.update_self]

omit [Written α] in
/-- In its turn a run without others goes on with its own machine. -/
theorem machine_alone {m : Machine α} (patient : m.patience = none) (pc : Nat) (j : Fin 1)
    (ended : Option (Except (Halt RunError) Unit)) : (alone m pc ended).machine j = m := by
  -- Without a limit on its patience a machine has nothing that is not kept.
  cases m
  cases patient
  rfl

/-- Turns of a run that has ended change nothing. -/
theorem follow_ended (job : Job α) (m : Machine α) (done : Nat)
    (ended : Except (Halt RunError) Unit) (turns : Nat) :
    (alone m done (some ended)).follow k (fun _ => job) (List.replicate turns 0) =
      alone m done (some ended) := by
  -- Each turn finds the run ended.
  induction turns with
  | zero => rfl
  | succ turns ih =>
    rw [List.replicate_succ, follow, List.foldl_cons, advance_ended (by rfl)]
    exact ih

/-- A run without others ends like the run of a machine that goes on from its position. -/
theorem follow_rest (job : Job α) {rest : List (Instr α)} :
    ∀ {m : Machine α} {pc : Nat}, m.patience = none → job.program.instrs.drop pc = rest →
    ∃ done, (alone m pc none).follow k (fun _ => job) (List.replicate (rest.length + 1) 0) =
      alone ((job.finish k (Machine.perform k job.frame pc rest)).outcome m).2 done
        (some ((job.finish k (Machine.perform k job.frame pc rest)).outcome m).1) := by
  -- Each turn takes one instruction off what is left.
  induction rest with
  | nil =>
    intro m pc patient left
    -- Behind the last instruction only the end of the run is left, which takes a turn of its own.
    have last : job.program.instrs.length ≤ pc := List.drop_eq_nil_iff.mp left
    refine ⟨pc, ?_⟩
    rw [follow, List.length_nil, List.replicate_one, List.foldl_cons, List.foldl_nil,
      advance_last rfl last, machine_alone patient]
    exact put_alone _ _ _ _ _ _ _
  | cons i rest ih =>
    intro m pc patient left
    have next : job.program.instrs[pc]? = some i := by
      rw [← Nat.add_zero pc, ← List.getElem?_drop, left]
      rfl
    have later : job.program.instrs.drop (pc + 1) = rest := by
      rw [← List.drop_drop, left]
      rfl
    -- The first instruction is performed for itself, as in a turn.
    have split : Machine.perform k job.frame pc (i :: rest) =
        (do Machine.perform k job.frame pc [i]; Machine.perform k job.frame (pc + 1) rest) :=
      Machine.perform_append k job.frame pc [i] rest
    rw [follow, List.length_cons, List.replicate_succ, List.foldl_cons]
    cases performed : Machine.perform k job.frame pc [i] m with
    | ok _ m' =>
      -- The machine goes on from where the instruction leaves it.
      have turn : (alone m pc none).advance k (fun _ => job) 0 = alone m' (pc + 1) none := by
        simp [advance, machine_alone patient, next, performed, put_alone]
      -- Performing instructions leaves patience without a limit as it is.
      have settled : m'.patience = none := by
        have same : m.withPatience none = m := by rw [Machine.withPatience, ← patient]
        have again : Machine.perform k job.frame pc [i] (m.withPatience none) =
            .ok () (m'.withPatience none) :=
          Machine.perform_patient (same.symm ▸ performed) (by simp)
        rw [same, performed] at again
        rw [(EStateM.Result.ok.inj again).2]
        rfl
      have whole : Machine.perform k job.frame pc (i :: rest) m =
          Machine.perform k job.frame (pc + 1) rest m' := by
        rw [split]
        exact Action.bind_ok performed
      obtain ⟨done, ends⟩ := ih settled later
      refine ⟨done, ?_⟩
      rw [turn, Action.outcome, job.finish_congr k whole]
      exact ends
    | error halt m' =>
      -- The run ends with the instruction, and takes no more turns.
      have turn : (alone m pc none).advance k (fun _ => job) 0 =
          alone ((job.finish k (throw halt)).outcome m').2 pc
            (some ((job.finish k (throw halt)).outcome m').1) := by
        simp only [advance, machine_alone patient, next, performed]
        exact put_alone _ _ _ _ _ _ _
      have whole : Machine.perform k job.frame pc (i :: rest) m =
          (throw halt : Action (Machine α) RunError Unit) m' := by
        rw [split]
        exact Action.bind_error performed
      refine ⟨pc, ?_⟩
      rw [turn, Action.outcome, Action.outcome, job.finish_congr k whole]
      exact follow_ended job _ _ _ _

/-- A run that takes all the turns is the run of a machine. -/
theorem follow_alone (job : Job α) (h : Host α) (meter : Meter) :
    ∃ done, (start h meter).follow k (fun _ => job)
        (List.replicate (job.program.instrs.length + 1) 0) =
      alone ((Machine.run k job.program job.memory).outcome ⟨h, meter, none, []⟩).2 done
        (some ((Machine.run k job.program job.memory).outcome ⟨h, meter, none, []⟩).1) := by
  -- What a run does behind its preparation is what the turns do.
  have same : Machine.run k job.program job.memory ⟨h, meter, none, []⟩ =
      job.finish k (Machine.perform k job.frame 0 job.program.instrs) ⟨h, meter, none, []⟩ := by
    rw [Machine.run, job.prepared]
    rfl
  unfold Action.outcome
  rw [same]
  exact follow_rest job (m := ⟨h, meter, none, []⟩) rfl rfl

end Crew

end Tangent
