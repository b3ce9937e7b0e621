import Tangent.Proofs.Exec.Effect

/-!
How a run ends.

A run that is called off, that is refused a block or that leaves memory has performed its first
instructions and nothing of the others. Their effects stay, and all that was borrowed is given back.
-/

namespace Tangent

variable {α : Type}

/-- Data that was found is there for each name, and long enough. -/
theorem Frame.exists_of_bindVars {paths : Int64} {data : NameMap View} {names : List String}
    {views : List View} (bound : Frame.bindVars paths data names = .ok views) :
    ∀ i < names.length, ∃ v, views[i]? = some v ∧ paths.toInt ≤ v.length := by
  induction names generalizing views with
  | nil => simp
  | cons name rest ih =>
    intro i inside
    rw [Frame.bindVars] at bound
    split at bound
    · simp at bound
    · rename_i view found
      split at bound
      · simp at bound
      · rename_i long
        obtain ⟨others, later, rfl⟩ := ok_of_map bound
        -- The data of the first name comes first.
        cases i with
        | zero => exact ⟨view, rfl, Int.not_lt.mp long⟩
        | succ i => exact ih later i (by simpa using inside)

namespace Machine

/-- A program that has its frame is safe, and the frame covers it. -/
theorem covers_of_prepare [Written α] {p : Program α} {memory : Memory} {f : Frame}
    (prepared : prepare p memory = .ok f) : p.validate = .ok () ∧ f.Covers p := by
  -- The program is checked first, and then its data is looked for.
  obtain ⟨_, safe, bound⟩ := ok_of_bind prepared
  refine ⟨ok_of_mapError safe, ?_⟩
  unfold Frame.bind at bound
  split at bound
  · simp at bound
  · rename_i long
    obtain ⟨views, found, rfl⟩ := ok_of_map bound
    simp only [Bool.or_eq_true, decide_eq_true_eq, not_or, Int.not_lt] at long
    exact ⟨long.1, long.2, Frame.exists_of_bindVars found⟩

/-- The same machine with other patience. -/
def withPatience (m : Machine α) (patience : Option Nat) : Machine α := { m with patience }

section Patience

variable (k : MachineKernels α) (f : Frame) (i : Instr α) (patience : Option Nat)

/-- A computation that neither reads nor writes the patience of a machine. -/
def Unhurried {τ : Type} (body : Action (Machine α) StepError τ) : Prop :=
  ∀ patience, Action.Shadows (·.withPatience patience) body body

/-- Kernels do not see the patience of a machine. -/
theorem unhurried_onHost {τ : Type} (kernel : Action (Host α) StepError τ) :
    Unhurried (onHost kernel) := by
  -- A kernel works on the memory of the machine only.
  intro patience m
  simp only [onHost, Action.focus, withPatience]
  cases kernel m.host <;> rfl

/-- Operands are found whatever the patience. -/
theorem unhurried_resolve (r : Ref) (n : Int64) : Unhurried (α := α) (resolve f r n) := by
  intro patience
  apply Action.Shadows.bind
  · intro m
    unfold bufferOf withPatience
    -- Only a temporary is looked for in the machine.
    cases r.space with
    | value => rfl
    | deriv => rfl
    | var => cases (if r.index < 0 then none else f.vars[r.index.toNatClampNeg]?) <;> rfl
    | temp =>
      simp only [Action.get_bind]
      cases m.temps.find? r.index <;> rfl
    | other code above => rfl
  · intro buffer m
    dsimp only
    split
    · rfl
    · split <;> rfl

/-- A temporary ends whatever the patience. -/
theorem unhurried_endTemp (index : Int64) : Unhurried (endTemp k index) := by
  -- The table of temporaries and the memory are changed, the patience is not.
  intro patience m
  unfold endTemp
  rw [Action.get_bind, Action.get_bind, Action.modify_bind, Action.modify_bind]
  exact ((unhurried_onHost _ patience).bind (fun _ _ => rfl))
    { m with temps := m.temps.erase index }

/-- An instruction is performed whatever the patience. -/
theorem unhurried_step : Unhurried (step k f i) := by
  -- Whatever the kernel does, it is called in memory, between looking for operands and measuring.
  have onOne (kernel : View → Action (Host α) StepError Unit) : Unhurried (onOne f i kernel) :=
    fun patience => (unhurried_resolve f i.dst i.len patience).bind (fun dst =>
      (unhurried_onHost (kernel dst) patience).bind (fun _ _ => rfl))
  have onTwo (kernel : View → View → Int64 → Action (Host α) StepError Unit) :
      Unhurried (onTwo f i kernel) :=
    fun patience => (unhurried_resolve f i.dst i.len patience).bind (fun dst =>
      (unhurried_resolve f i.src i.len patience).bind (fun src =>
        (unhurried_onHost (kernel src dst i.len) patience).bind (fun _ _ => rfl)))
  unfold step
  cases i.op with
  | alloc =>
    intro patience
    apply (unhurried_onHost (k.alloc i.len) patience).bind
    intro answer
    cases answer <;> exact fun _ => rfl
  | free => exact unhurried_endTemp k i.dst.index
  | fill => exact onOne _
  | zero => exact onOne _
  | exp => exact onOne _
  | copy => exact onTwo _
  | add => exact onTwo _
  | mul => exact onTwo _
  | other name =>
    exact fun patience => (unhurried_resolve f i.dst i.len patience).bind (fun _ _ => rfl)

/-- Temporaries are given back whatever the patience. -/
theorem unhurried_releaseAll : Unhurried (releaseAll k) := by
  -- Each block is given back in memory, which has no part in the patience.
  have each (entries : List (Int64 × View)) : Unhurried (releaseEach k entries) := by
    induction entries with
    | nil => exact fun _ _ => rfl
    | cons entry rest ih =>
      intro patience
      apply (unhurried_onHost (k.free entry.2) patience).bind
      exact fun _ m => ih patience { m with
        meter := m.meter.release entry.2.length
        temps := m.temps.erase entry.1 }
  intro patience m
  exact each m.temps patience m

end Patience

/-- Asking uses up patience. -/
theorem poll_patient {patience : Option Nat} (m : Machine α) (pc : Nat)
    (more : ∀ left, patience = some left → 0 < left) :
    poll pc (m.withPatience patience) = .ok () (m.withPatience (patience.map (· - 1))) := by
  -- A machine without a limit is never called off, and one with patience left has less of it.
  cases patience with
  | none => rfl
  | some left =>
    cases left with
    | zero => exact absurd (more 0 rfl) (Nat.lt_irrefl 0)
    | succ left => rfl

section Performing

variable [Written α] {k : MachineKernels α} {f : Frame} {m reached : Machine α}
  {patience : Option Nat} {is : List (Instr α)} {i : Instr α}

/-- With enough patience instructions are performed as without a limit on it. -/
theorem perform_patient {pc : Nat}
    (performed : perform k f pc is (m.withPatience none) = .ok () reached)
    (enough : ∀ left, patience = some left → is.length ≤ left) :
    perform k f pc is (m.withPatience patience) =
      .ok () (reached.withPatience (patience.map (· - is.length))) := by
  induction is generalizing pc m patience with
  | nil =>
    have same : m.withPatience none = reached := by simpa [perform] using performed
    subst same
    cases patience <;> rfl
  | cons i rest ih =>
    rw [perform, Action.bind_ok (poll_patient m pc (by simp))] at performed
    obtain ⟨_, next, stepped, others⟩ := Action.bind_eq_ok.mp performed
    have first : step k f i (m.withPatience none) = .ok () next := Action.ok_of_adapt stepped
    -- The step is the same with any patience, and leaves it as it is.
    have any (patience : Option Nat) :
        step k f i (m.withPatience patience) = .ok () (next.withPatience patience) := by
      have same := unhurried_step k f i patience (m.withPatience none)
      rw [first] at same
      exact same
    have settled : next = next.withPatience none := by
      have same := (any none).symm.trans first
      simpa using same.symm
    rw [settled] at others
    have more : ∀ left, patience = some left → 0 < left := by
      intro left given
      have := enough left given
      simp only [List.length_cons] at this
      omega
    rw [perform, Action.bind_ok (poll_patient m pc more), Action.bind_ok (Action.adapt_ok (any _)),
      ih others (by
        intro left given
        obtain ⟨whole, known, rfl⟩ := Option.map_eq_some_iff.mp given
        have := enough whole known
        simp only [List.length_cons] at this
        omega)]
    -- Each instruction takes one off, and all of them together take their number off.
    cases patience with
    | none => rfl
    | some left => simp [Nat.sub_sub, Nat.add_comm 1]

/-- After its first instructions a machine goes on with the others. -/
theorem perform_at {pc : Nat} {m' : Machine α} (within : pc ≤ is.length)
    (first : perform k f 0 (is.take pc) m = .ok () m') :
    perform k f 0 is m = perform k f pc (is.drop pc) m' := by
  -- The instructions are those that were performed and the others.
  conv_lhs => rw [← List.take_append_drop pc is]
  rw [perform_append, Action.bind_ok first, List.length_take_of_le within, Nat.zero_add]

/-- A machine that runs out of patience after some instructions is called off there. -/
theorem perform_canceled {pc : Nat} (within : pc < is.length)
    (performed : perform k f 0 (is.take pc) (m.withPatience none) = .ok () reached) :
    perform k f 0 is (m.withPatience (some pc)) =
      .error (.error (.canceled pc)) (reached.withPatience (some 0)) := by
  have first : perform k f 0 (is.take pc) (m.withPatience (some pc)) = .ok () _ :=
    perform_patient performed (by simp)
  rw [List.length_take_of_le (Nat.le_of_lt within), Option.map_some, Nat.sub_self] at first
  -- The next time it asks it may not go on.
  rw [perform_at (Nat.le_of_lt within) first, List.drop_eq_getElem_cons within]
  rfl

/-- A machine stops at an instruction that fails after those before it. -/
theorem perform_stopped {pc : Nat} {halt : Halt StepError} (next : is[pc]? = some i)
    (performed : perform k f 0 (is.take pc) (m.withPatience none) = .ok () reached)
    (fails : step k f i reached = .error halt reached)
    (enough : ∀ left, patience = some left → pc < left) :
    perform k f 0 is (m.withPatience patience) =
      .error (halt.map (.step pc i.text)) (reached.withPatience (patience.map (· - (pc + 1)))) := by
  obtain ⟨within, rfl⟩ := List.getElem?_eq_some_iff.mp next
  have count := List.length_take_of_le (Nat.le_of_lt within)
  have first : perform k f 0 (is.take pc) (m.withPatience patience) = .ok () _ :=
    perform_patient performed (by
      intro left given
      have := enough left given
      omega)
  -- There is patience for one more question.
  have more : ∀ left, patience.map (· - pc) = some left → 0 < left := by
    intro left given
    obtain ⟨whole, known, rfl⟩ := Option.map_eq_some_iff.mp given
    exact Nat.sub_pos_of_lt (enough whole known)
  -- The step fails with what is left of the patience as it does without a limit on it.
  have stopped := unhurried_step k f is[pc] ((patience.map (· - pc)).map (· - 1)) reached
  rw [fails] at stopped
  rw [perform_at (Nat.le_of_lt within) first, List.drop_eq_getElem_cons within, count, perform,
    Action.bind_ok (poll_patient reached pc more)]
  refine (Action.bind_error (Action.adapt_error stopped)).trans ?_
  cases patience with
  | none => rfl
  | some left => simp [Nat.sub_sub]

end Performing

/-- A machine that has given temporaries back, and has no other loans than these left. -/
structure Returned (entries : TempTable View) (others : List (Nat × Int64)) (m m' : Machine α) :
    Prop where
  store : m'.host.store = m.host.store
  live : m'.host.live = others
  elements : m'.host.liveElements = m.host.liveElements - Int64.ofNat entries.held
  calls : m'.meter.kernelCalls = m.meter.kernelCalls
  allocations : m'.meter.allocations = m.meter.allocations
  releases : m'.meter.releases = m.meter.releases + entries.length
  held : m'.meter.liveElements = m.meter.liveElements - entries.held

/-- Temporaries with blocks of their own are given back one after the other. -/
theorem releaseEach_returns [Elem α] {entries : TempTable View} {others : List (Nat × Int64)} :
    ∀ {m : Machine α}, m.host.live = entries.loans ++ others →
      (∀ entry ∈ entries, entry.2.start = 0 ∧ 0 < entry.2.length) →
      entries.Pairwise (fun a b => b.2.block ≠ a.2.block) →
      (∀ entry ∈ entries, ∀ other ∈ others, other.1 ≠ entry.2.block) →
      ∃ m', releaseEach Host.kernels entries m = .ok () m' ∧ Returned entries others m m' := by
  induction entries with
  | nil =>
    intro m lent _ _ _
    exact ⟨m, rfl, rfl, lent, by simp [TempTable.held], rfl, rfl, rfl, by simp [TempTable.held]⟩
  | cons entry rest ih =>
    intro m lent blocks distinct apart
    obtain ⟨start, nonempty⟩ := blocks entry (by simp)
    obtain ⟨differ, distinct⟩ := List.pairwise_cons.mp distinct
    -- The first block differs from those that are left, so only its loan goes.
    have unlike : ∀ loan ∈ TempTable.loans rest ++ others, loan.1 ≠ entry.2.block := by
      intro loan member
      rcases List.mem_append.mp member with member | member
      · obtain ⟨other, listed, rfl⟩ := List.mem_map.mp member
        exact differ other listed
      · exact apart entry (by simp) loan member
    have freed := Host.free_latest (ε := StepError) (h := m.host) start nonempty lent unlike
    obtain ⟨m', released, returned⟩ := ih (m := { m with
        host := { m.host with
          live := TempTable.loans rest ++ others
          liveElements := m.host.liveElements - Int64.ofNat entry.2.length }
        meter := m.meter.release entry.2.length
        temps := m.temps.erase entry.1 }) rfl
      (fun other listed => blocks other (by simp [listed])) distinct
      (fun other listed => apart other (by simp [listed]))
    refine ⟨m', (Action.bind_ok (onHost_ok freed)).trans released, ?_⟩
    have sum : TempTable.held (entry :: rest) = entry.2.length + TempTable.held rest := by
      simp [TempTable.held]
    exact {
      store := returned.store
      live := returned.live
      elements := by
        rw [returned.elements, sum, Int64.ofNat_add, Int64.sub_sub]
      calls := returned.calls
      allocations := returned.allocations
      releases := by
        rw [returned.releases, List.length_cons]
        show m.meter.releases + 1 + rest.length = _
        omega
      held := by
        rw [returned.held, sum]
        show m.meter.liveElements - (entry.2.length : Int) - _ = _
        push_cast
        omega }

/-- Machines before and after a run that left the effects of some instructions and nothing else. -/
structure Clean [Elem α] (f : Frame) (done : List (Instr α)) (m m' : Machine α) : Prop where
  memory : m'.host.store = (Instr.effects m.host f done).store
  loans : m'.host.loans = m.host.loans
  balanced : ∃ count, m'.meter.allocations = m.meter.allocations + count ∧
    m'.meter.releases = m.meter.releases + count
  held : m'.meter.liveElements = m.meter.liveElements
  calls : ∀ op, m'.meter.kernelCalls.count op =
    m.meter.kernelCalls.count op + done.countP (fun i => i.op = op)

/--
How a run ends after its first `pc` instructions, which have brought the machine to a state.

It asks before each instruction whether to go on, and may do so as often as its patience says.
-/
inductive EndsAt [Elem α] [Written α] (k : MachineKernels α) (f : Frame) (is : List (Instr α))
    (patience : Option Nat) (pc : Nat) (reached : Machine α) :
    Except (Halt RunError) Unit → Prop where
  | finished (all : pc = is.length) (patient : ∀ left, patience = some left → pc ≤ left) :
    EndsAt k f is patience pc reached (.ok ())
  | canceled (within : pc < is.length) (called : patience = some pc) :
    EndsAt k f is patience pc reached (.error (.error (.canceled pc)))
  | stopped {i : Instr α} {halt : Halt StepError} (next : is[pc]? = some i)
    (patient : ∀ left, patience = some left → pc < left)
    (fails : step k f i reached = .error halt reached) (why : i.Stops halt) :
    EndsAt k f is patience pc reached (.error (halt.map (.step pc i.text)))

namespace EndsAt

variable [Elem α] [Written α] {k : MachineKernels α} {f : Frame} {is : List (Instr α)}
  {patience : Option Nat} {pc : Nat} {m reached : Machine α} {ended : Except (Halt RunError) Unit}

/-- Where a run ends says how performing its instructions does. -/
theorem outcome (ends : EndsAt k f is patience pc reached ended)
    (performed : perform k f 0 (is.take pc) (m.withPatience none) = .ok () reached) :
    ∃ left, (perform k f 0 is).outcome (m.withPatience patience) =
      (ended, reached.withPatience left) := by
  -- There are three ways to end, and each says how the instructions are performed.
  cases ends with
  | finished all patient =>
    rw [all, List.take_length] at performed
    exact ⟨_, by rw [Action.outcome, perform_patient performed (all ▸ patient)]⟩
  | canceled within called =>
    subst called
    exact ⟨_, by rw [Action.outcome, perform_canceled within performed]⟩
  | stopped next patient fails _ =>
    exact ⟨_, by rw [Action.outcome, perform_stopped next performed fails patient]⟩

/-- A run that is called off says where it ends. -/
theorem eq_of_canceled {n : Nat} (ends : EndsAt k f is patience pc reached ended)
    (called : ended = .error (.error (.canceled n))) : pc = n := by
  -- A run that finished or was stopped by an instruction does not say so.
  cases ends with
  | finished all _ => simp at called
  | canceled within _ => simpa using called
  | @stopped i halt _ _ _ _ => cases halt <;> simp [Halt.map] at called

/-- A run with patience for all its instructions ends as one without a limit on it. -/
theorem unlimited {n : Nat} (ends : EndsAt k f is (some n) pc reached ended)
    (enough : is.length ≤ n) : EndsAt k f is none pc reached ended := by
  -- It is not called off, for that would be behind its last instruction.
  cases ends with
  | finished all _ => exact .finished all nofun
  | canceled within called =>
    have : n = pc := Option.some.inj called
    omega
  | stopped next _ fails why => exact .stopped next nofun fails why

end EndsAt

/-- Giving back its temporaries leaves a machine clean. -/
theorem Amid.returned [Elem α] {start m : Machine α} {f : Frame} {done : List (Instr α)}
    {v : Validation} (amid : Amid start f done m) (tracks : m.Tracks v)
    (numbered : start.host.Numbered) (ok : Bool) (patience : Option Nat) :
    ∃ m', releaseAll Host.kernels { m with meter := m.meter.run ok, patience } = .ok () m' ∧
      start.Clean f done m' := by
  -- The temporaries have blocks of their own, which no earlier loan has.
  have blocks : ∀ entry ∈ m.temps, entry.2.start = 0 ∧ 0 < entry.2.length := by
    intro entry listed
    obtain ⟨first, nonempty, _⟩ := tracks.blocks entry listed
    exact ⟨first, nonempty⟩
  have apart : ∀ entry ∈ m.temps, ∀ other ∈ start.host.live, other.1 ≠ entry.2.block := by
    intro entry listed other held
    exact Nat.ne_of_lt (Nat.lt_of_lt_of_le (numbered other held) (amid.fresh entry listed))
  obtain ⟨m', released, returned⟩ := releaseEach_returns
    (m := { m with meter := m.meter.run ok, patience }) amid.lent blocks tracks.distinct apart
  -- How the run ended is counted apart from all that is compared.
  have meter : (m.meter.run ok).kernelCalls = m.meter.kernelCalls ∧
      (m.meter.run ok).allocations = m.meter.allocations ∧
      (m.meter.run ok).releases = m.meter.releases ∧
      (m.meter.run ok).liveElements = m.meter.liveElements := by
    cases ok <;> exact ⟨rfl, rfl, rfl, rfl⟩
  refine ⟨m', released, ?_⟩
  exact {
    memory := by rw [returned.store, amid.scene]
    loans := by
      have elements : m'.host.liveElements = start.host.liveElements := by
        rw [returned.elements, amid.elements, Int64.add_sub_cancel]
      simp only [Host.loans, returned.live, elements]
    balanced := by
      obtain ⟨ended, releases, allocations⟩ := amid.loans
      refine ⟨ended + m.temps.length, ?_, ?_⟩
      · rw [returned.allocations, meter.2.1, allocations, Nat.add_assoc]
      · rw [returned.releases, meter.2.2.1, releases, Nat.add_assoc]
    held := by
      rw [returned.held, meter.2.2.2, amid.held]
      omega
    calls := by
      intro op
      rw [returned.calls, meter.1]
      exact amid.calls op }

/-- A run that ends in a certain way is counted and then gives everything back. -/
theorem outcome_runIn [Written α] (k : MachineKernels α) (p : Program α) (f : Frame)
    (ended : Except (Halt RunError) Unit) :
    ∃ ok, ∀ m reached m', (perform k f 0 p.instrs).outcome m = (ended, reached) →
      releaseAll k { reached with meter := reached.meter.run ok } = .ok () m' →
      (runIn k p f).outcome m = (ended, m') := by
  -- Only an error makes it a failed run.
  refine ⟨match ended with | .error (.error _) => false | _ => true, ?_⟩
  intro m reached m' performed released
  unfold Action.outcome at performed ⊢
  cases ran : perform k f 0 p.instrs m with
  -- A run that went through is a good one, and so is one that a misuse stopped.
  | ok x r =>
    obtain ⟨rfl, rfl⟩ := Prod.mk.inj (by simpa only [ran] using performed)
    have body : counted (perform k f 0 p.instrs) m =
        .ok () { r with meter := r.meter.run true } := by
      rw [counted, ran]
    rw [runIn, Action.closing_ok body (Action.adapt_ok released)]
  | error halt r =>
    obtain ⟨rfl, rfl⟩ := Prod.mk.inj (by simpa only [ran] using performed)
    cases halt with
    | error cause =>
      have body : counted (perform k f 0 p.instrs) m =
          .error (.error cause) { r with meter := r.meter.run false } := by
        rw [counted, ran]
      rw [runIn, Action.closing_error body (Action.adapt_ok released)]
    | fault misuse =>
      have body : counted (perform k f 0 p.instrs) m =
          .error (.fault misuse) { r with meter := r.meter.run true } := by
        rw [counted, ran]
      rw [runIn, Action.closing_error body (Action.adapt_ok released)]

variable [Elem α] [Written α] {p : Program α} {f : Frame} {start m reached : Machine α}
  {done : List (Instr α)}

/-- A machine that accepted instructions, performed without a limit on its patience, lead to. -/
structure Reached (p : Program α) (f : Frame) (start : Machine α) (done : List (Instr α))
    (m : Machine α) : Prop where
  performed : perform Host.kernels f 0 done start = .ok () m
  patient : m.patience = none
  amid : Amid start f done m
  checked : ∃ v, p.checkInstrs ⟨[], []⟩ 0 done = .ok v ∧ m.Tracks v ∧ v.Begun

/-- Before the first instruction a machine is where it starts. -/
theorem Reached.nil (unused : start.temps = []) (patient : start.patience = none) :
    Reached p f start [] start where
  -- Nothing was performed, so there is nothing to undo and nothing was counted.
  performed := rfl
  patient := patient
  amid := {
    scene := by rw [unused]; rfl
    cut := rfl
    blank := rfl
    grown := Nat.le_refl _
    unique := by rw [unused]; exact List.Pairwise.nil
    fresh := by simp [unused]
    lent := by simp [unused, TempTable.loans]
    elements := by simp [unused, TempTable.held]
    calls := by simp
    loans := ⟨0, by simp [unused]⟩
    held := by simp [unused, TempTable.held] }
  checked := by
    refine ⟨⟨[], []⟩, rfl, ⟨by rw [unused]; rfl, by simp [unused], by simp [unused]⟩, ?_⟩
    intro index live
    simp [TempTable.find?] at live

/-- One more accepted instruction is performed, or stops a machine as it is. -/
theorem Reached.step (here : Reached p f start done m) (numbered : start.host.Numbered)
    (covers : f.Covers p) {i : Instr α} {v' : Validation}
    (checked : p.checkInstrs ⟨[], []⟩ 0 (done ++ [i]) = .ok v') :
    (∃ m', Reached p f start (done ++ [i]) m') ∨
    ∃ halt, Machine.step Host.kernels f i m = .error halt m ∧ i.Stops halt := by
  obtain ⟨v, known, tracks, begun⟩ := here.checked
  -- The check has accepted the instructions before, and this one with what it knew then.
  have last := checked
  rw [Program.checkInstrs_append, known] at last
  obtain ⟨w, accepted, rest⟩ := Program.checkInstrs_cons_ok last
  obtain rfl : w = v' := Except.ok.inj rest
  rcases here.amid.step tracks begun numbered covers accepted with
    ⟨m', stepped, amid, tracks, patience⟩ | stopped
  · left
    exact ⟨m', perform_concat here.performed here.patient stepped, patience.trans here.patient,
      amid, w, checked, tracks, begun.accepted accepted⟩
  · exact .inr stopped

/-- Accepted instructions are all performed, or one of them stops the machine that reaches it. -/
theorem reached_or_stopped (numbered : m.host.Numbered) (covers : f.Covers p)
    (safe : p.validate = .ok ()) (unused : m.temps = []) :
    ∀ n ≤ p.instrs.length,
      (∃ reached, Reached p f (m.withPatience none) (p.instrs.take n) reached) ∨
      ∃ pc < n, ∃ reached i halt, Reached p f (m.withPatience none) (p.instrs.take pc) reached ∧
        p.instrs[pc]? = some i ∧ Machine.step Host.kernels f i reached = .error halt reached ∧
        i.Stops halt := by
  obtain ⟨_, v, checked⟩ := Program.checkInstrs_of_validate safe
  intro n
  induction n with
  | zero => exact fun _ => .inl ⟨_, .nil unused rfl⟩
  | succ n ih =>
    intro within
    rcases ih (by omega) with ⟨reached, here⟩ | ⟨pc, below, stop⟩
    · have next : p.instrs[n]? = some p.instrs[n] := List.getElem?_eq_getElem (by omega)
      have more : p.instrs.take (n + 1) = p.instrs.take n ++ [p.instrs[n]] := by simp
      -- What comes first of accepted instructions is accepted.
      have accepted : ∃ w, p.checkInstrs ⟨[], []⟩ 0 (p.instrs.take (n + 1)) = .ok w := by
        rw [← List.take_append_drop (n + 1) p.instrs, Program.checkInstrs_append] at checked
        obtain ⟨w, first, _⟩ := ok_of_bind checked
        exact ⟨w, first⟩
      obtain ⟨w, first⟩ := accepted
      rw [more] at first ⊢
      rcases here.step numbered covers first with further | ⟨halt, fails, why⟩
      · exact .inl further
      · exact .inr ⟨n, by omega, reached, _, halt, here, next, fails, why⟩
    · exact .inr ⟨pc, by omega, stop⟩

/-- The instructions of a safe program end somewhere, with any patience. -/
theorem exists_endsAt (numbered : m.host.Numbered) (covers : f.Covers p)
    (safe : p.validate = .ok ()) (unused : m.temps = []) (patience : Option Nat) :
    ∃ pc reached ended, Reached p f (m.withPatience none) (p.instrs.take pc) reached ∧
      EndsAt Host.kernels f p.instrs patience pc reached ended := by
  -- As many instructions are tried as there are, or as patience allows for.
  obtain ⟨n, within, enough, last⟩ : ∃ n ≤ p.instrs.length,
      (∀ left, patience = some left → n ≤ left) ∧
      (n = p.instrs.length ∨ n < p.instrs.length ∧ patience = some n) := by
    cases patience with
    | none => exact ⟨_, Nat.le_refl _, by simp, .inl rfl⟩
    | some left =>
      rcases Nat.lt_or_ge left p.instrs.length with short | long
      · exact ⟨left, Nat.le_of_lt short, by simp, .inr ⟨short, rfl⟩⟩
      · exact ⟨_, Nat.le_refl _, by simpa using long, .inl rfl⟩
  rcases reached_or_stopped numbered covers safe unused n within with
    ⟨reached, here⟩ | ⟨pc, below, reached, i, halt, here, next, fails, why⟩
  · -- The last instruction has been performed, or the patience is at its end.
    rcases last with rfl | ⟨short, called⟩
    · exact ⟨_, reached, _, here, .finished rfl enough⟩
    · exact ⟨n, reached, _, here, .canceled short called⟩
  · exact ⟨pc, reached, _, here,
      .stopped next (fun left given => Nat.lt_of_lt_of_le below (enough left given)) fails why⟩

/-- A run that has reached its end leaves the same with any patience that lets it get there. -/
theorem Reached.runIn {pc : Nat}
    (here : Reached p f (m.withPatience none) (p.instrs.take pc) reached)
    (numbered : m.host.Numbered) (ended : Except (Halt RunError) Unit) :
    ∃ m' : Machine α, m'.host.store = reached.host.store ∧
      (∀ left, m.Clean f (p.instrs.take pc) (m'.withPatience left)) ∧
      ∀ patience, EndsAt Host.kernels f p.instrs patience pc reached ended →
        ∃ left, (Machine.runIn Host.kernels p f).outcome (m.withPatience patience) =
          (ended, m'.withPatience left) := by
  obtain ⟨ok, runs⟩ := outcome_runIn Host.kernels p f ended
  obtain ⟨v, _, tracks, _⟩ := here.checked
  obtain ⟨m', released, clean⟩ := here.amid.returned tracks numbered ok none
  refine ⟨m', ?_, ?_, ?_⟩
  · rw [clean.memory, here.amid.scene]
  · intro left
    exact ⟨clean.memory, clean.loans, clean.balanced, clean.held, clean.calls⟩
  · intro patience ends
    obtain ⟨left, performed⟩ := ends.outcome here.performed
    refine ⟨left, runs _ _ _ performed ?_⟩
    -- What is given back does not depend on the patience that is left.
    have same := unhurried_releaseAll Host.kernels left
      { reached with meter := reached.meter.run ok, patience := none }
    rw [released] at same
    exact same

omit [Elem α] in
/-- A program that has its frame runs in it. -/
theorem run_eq_runIn {k : MachineKernels α} {memory : Memory}
    (prepared : prepare p memory = .ok f) : run k p memory = runIn k p f := by
  -- Preparing is the first thing that a run does.
  funext m
  rw [run, prepared]
  rfl

/--
However a run on ready memory ends, it leaves just the effects of the instructions it performed.

They are the first instructions of the program, up to where the run was called off, was refused a
block or left memory. What is on loan is what was on loan before, and what was counted adds up.
A run is called off at the instruction that its patience leads to, if it gets there.
-/
theorem run_ends_clean {kernels : MachineKernels α} (linked : Host.symbols.link = .ok kernels)
    {memory : Memory} (prepared : prepare p memory = .ok f) (ready : m.host.Ready)
    (unused : m.temps = []) :
    (∃ pc reached ended m', (run kernels p memory).outcome m = (ended, m') ∧
      perform kernels f 0 (p.instrs.take pc) (m.withPatience none) = .ok () reached ∧
      EndsAt kernels f p.instrs m.patience pc reached ended ∧
      m'.host.store = reached.host.store ∧ m.Clean f (p.instrs.take pc) m') ∧
    ∀ k, m.patience = some k →
      (k < p.instrs.length →
        (∃ reached, perform kernels f 0 (p.instrs.take k) (m.withPatience none) = .ok () reached) →
        ∃ m', (run kernels p memory).outcome m = (.error (.error (.canceled k)), m') ∧
          m.Clean f (p.instrs.take k) m') ∧
      (p.instrs.length ≤ k → ∃ left, (run kernels p memory).outcome m =
        ((run kernels p memory).outcome (m.withPatience none)).map id (·.withPatience left)) := by
  obtain rfl : kernels = Host.kernels := Except.ok.inj (linked.symm.trans Host.link_symbols)
  obtain ⟨safe, covers⟩ := covers_of_prepare prepared
  rw [run_eq_runIn prepared]
  obtain ⟨pc, reached, ended, here, ends⟩ :=
    exists_endsAt ready.lent covers safe unused m.patience
  obtain ⟨m', store, clean, runs⟩ := here.runIn ready.lent ended
  obtain ⟨left, ran⟩ := runs m.patience ends
  refine ⟨⟨pc, reached, ended, m'.withPatience left, ran, here.performed, ends, store,
    clean left⟩, ?_⟩
  intro k patience
  rw [patience] at ends
  constructor
  · rintro within ⟨other, before⟩
    -- The instructions before `k` are performed, so the run asks there and may not go on.
    obtain ⟨_, performed⟩ := ends.outcome here.performed
    rw [Action.outcome, perform_canceled within before] at performed
    have called : ended = .error (.error (.canceled k)) := (congrArg Prod.fst performed).symm
    obtain rfl : pc = k := ends.eq_of_canceled called
    exact ⟨_, ran.trans (by rw [called]), clean left⟩
  · intro enough
    -- A run that cannot be called off ends where it would end without a limit on its patience.
    obtain ⟨left', unlimited⟩ := runs none (ends.unlimited enough)
    refine ⟨left, ?_⟩
    rw [unlimited]
    exact ran

/-- A program that borrows a block, fills it, copies it and gives it back. -/
def sampleProgram : Program Float where
  paths := 2
  vars? := none
  seeds? := none
  source := ""
  instrs :=
    [⟨.alloc, ⟨.temp, 0, 0⟩, .value, 0, 2⟩, ⟨.fill, ⟨.temp, 0, 0⟩, .value, 1, 2⟩,
      ⟨.copy, .value, ⟨.temp, 0, 0⟩, 0, 2⟩, ⟨.free, ⟨.temp, 0, 0⟩, .value, 0, 2⟩]
  peak := 2

/-- A machine whose memory has lent a block before, and that may go on twice. -/
def sampleMachine : Machine Float where
  host := ⟨⟨#[#[0, 0, 0, 0]]⟩, [(0, 4)], 4, 6, .sequential, fun _ _ => 0⟩
  meter := .new
  patience := some 2
  temps := []

/-- Its one loan is the block that it has, and its kernels take each range in one chunk. -/
theorem sampleMachine_ready : sampleMachine.host.Ready := by
  -- The loan has the number of the first block.
  refine ⟨?_, by decide⟩
  intro entry found
  simp only [sampleMachine, List.mem_singleton] at found
  subst found
  decide

/-- The sample run is called off while its block is on loan. -/
theorem run_ends_clean_sample :
    prepare sampleProgram ⟨⟨0, 0, 2⟩, ⟨0, 2, 2⟩, .empty⟩ = .ok ⟨⟨0, 0, 2⟩, ⟨0, 2, 2⟩, []⟩ ∧
    ∃ m', (run Host.kernels sampleProgram ⟨⟨0, 0, 2⟩, ⟨0, 2, 2⟩, .empty⟩).outcome sampleMachine =
        (.error (.error (.canceled 2)), m') ∧
      sampleMachine.Clean ⟨⟨0, 0, 2⟩, ⟨0, 2, 2⟩, []⟩ (sampleProgram.instrs.take 2) m' := by
  -- The frame has the two registers and no variables.
  have prepared : prepare sampleProgram ⟨⟨0, 0, 2⟩, ⟨0, 2, 2⟩, .empty⟩ =
      .ok ⟨⟨0, 0, 2⟩, ⟨0, 2, 2⟩, []⟩ := by rfl
  refine ⟨prepared, ?_⟩
  obtain ⟨_, calledOff⟩ := run_ends_clean Host.link_symbols prepared sampleMachine_ready rfl
  exact (calledOff 2 rfl).1 (by decide) ⟨_, rfl⟩

end Machine

end Tangent
