import Tangent.Proofs.Walk.Transparent

/-!
Blocks on loan.

What happens to blocks is written down in order, next to the state of a backend. A step settles its
loans when each return is that of the latest block, nothing stays on loan that was not before, and
no block is lent twice. Steps that settle can be put together, whatever they end with.
-/

namespace Tangent

variable {σ ε ε' α β κ τ τ' : Type}

namespace Action

/-- The state that a computation leaves, however it ends. -/
def left (body : Action σ ε τ) (s : σ) : σ := (body.outcome s).2

variable {body : Action σ ε τ} {s t : σ}

/-- What is left with an answer. -/
theorem left_of_ok {a : τ} (ran : body s = .ok a t) : body.left s = t := by
  -- The state is the second part of the outcome.
  rw [left, outcome, ran]

/-- What is left by a stop. -/
theorem left_of_error {halt : Halt ε} (ran : body s = .error halt t) : body.left s = t := by
  -- The state is the second part of the outcome, with a stop as well.
  rw [left, outcome, ran]

/-- A sequence leaves what its second part leaves, if there is one. -/
theorem left_bind {next : τ → Action σ ε τ'} :
    (body >>= next).left s =
      match body s with
      | .ok a t => (next a).left t
      | .error _ t => t := by
  -- A stop leaves its state to the whole sequence.
  rw [left, outcome, bind_apply]
  cases body s <;> rfl

/-- A closing step that goes through leaves the state, however the computation before it ended. -/
theorem left_closing {close : Action σ ε Unit} (closed : close (body.left s) = .ok () t) :
    (body.closing close).left s = t := by
  -- An answer is given after closing, and a stop goes on after it; either has the state of closing.
  cases ran : body s with
  | ok a u =>
    rw [left_of_ok ran] at closed
    exact left_of_ok (closing_ok ran closed)
  | error halt u =>
    rw [left_of_error ran] at closed
    exact left_of_error (closing_error ran closed)

/-- A look at the state leaves what is done with it. -/
theorem left_get_bind (next : σ → Action σ ε τ) (s : σ) :
    (get >>= next).left s = (next s).left s := rfl

/-- A computation that keeps what is known of the state, however it ends. -/
def Keeps (known : σ → Prop) (body : Action σ ε τ) : Prop :=
  ∀ s, known s → known (body.left s)

namespace Keeps

variable {known : σ → Prop}

/-- What leaves the state alone keeps all that is known of it. -/
theorem still (alone : ∀ s, body.left s = s) : Keeps known body := by
  -- The state that is left is the one that is known.
  intro s here
  rwa [alone s]

/-- Computations are followed by others. -/
theorem bind {next : τ → Action σ ε τ'} (first : Keeps known body)
    (rest : ∀ a, Keeps known (next a)) : Keeps known (body >>= next) := by
  intro s here
  have after := first s here
  -- Where the first part stops, the second one has no say.
  rw [left_bind]
  cases ran : body s with
  | ok a t =>
    rw [left_of_ok ran] at after
    exact rest a t after
  | error halt t =>
    rw [left_of_error ran] at after
    exact after

/-- How errors are seen from the outside does not matter. -/
theorem adapt (keeps : Keeps known body) (f : ε → ε') : Keeps known (body.adapt f) := by
  -- Calling an error something else does not change the state it leaves.
  intro s here
  have after := keeps s here
  cases ran : body s with
  | ok a t =>
    rw [left_of_ok ran] at after
    rwa [left_of_ok (adapt_ok ran)]
  | error halt t =>
    rw [left_of_error ran] at after
    rwa [left_of_error (adapt_error ran)]

/-- A closing step comes after either end. -/
theorem closing {close : Action σ ε Unit} (keeps : Keeps known body) (closes : Keeps known close) :
    Keeps known (body.closing close) := by
  intro s here
  have after := closes _ (keeps s here)
  unfold left at after ⊢
  -- Both ends come to the closing step, which has the last word on the state.
  rw [outcome_closing]
  generalize close.outcome (body.outcome s).2 = closed at after ⊢
  obtain ⟨ended, t⟩ := closed
  cases ended <;> exact after

end Keeps

end Action

/-- What happens to a block: it is handed out, or somebody asks to take it back. -/
inductive Loan (β : Type) where
  | lent (block : β)
  | returned (block : β)
deriving DecidableEq, Repr

namespace Loan

/-- The block that is handed out, if one is. -/
def block? : Loan β → Option β
  | .lent x => some x
  | .returned _ => none

/-- The blocks that are handed out, in order. -/
def blocks (events : List (Loan β)) : List β := events.filterMap block?

/-- Blocks of a longer story are those of its parts. -/
theorem blocks_append (first second : List (Loan β)) :
    blocks (first ++ second) = blocks first ++ blocks second :=
  -- Each event has at most one block, wherever it stands in the story.
  List.filterMap_append

variable [DecidableEq β]

/-- The blocks on loan afterwards, the latest first, where only the latest may be given back. -/
def outstanding (stack : List β) : List (Loan β) → Option (List β)
  | [] => some stack
  | .lent x :: rest => outstanding (x :: stack) rest
  | .returned x :: rest =>
    match stack with
    | [] => none
    | latest :: others => if latest = x then outstanding others rest else none

/-- A longer story is followed part by part. -/
theorem outstanding_append (stack : List β) (first second : List (Loan β)) :
    outstanding stack (first ++ second) =
      (outstanding stack first).bind (fun stack => outstanding stack second) := by
  -- The stack moves on with every event, so the induction is for all of them.
  induction first generalizing stack with
  | nil => rfl
  | cons event rest ih =>
    cases event with
    | lent x => exact ih (x :: stack)
    | returned x =>
      cases stack with
      | nil => rfl
      | cons latest others =>
        simp only [List.cons_append, outstanding]
        split
        · exact ih others
        · rfl

/-- What was on loan or handed out is on loan still or was given back. -/
theorem count_outstanding {stack after : List β} {events : List (Loan β)}
    (followed : outstanding stack events = some after) (x : β) :
    stack.count x + events.count (.lent x) = after.count x + events.count (.returned x) := by
  induction events generalizing stack with
  | nil =>
    cases followed
    simp
  | cons event rest ih =>
    cases event with
    | lent y =>
      -- The block goes from the story to the stack.
      have later := ih followed
      by_cases same : y = x
      · simp [same] at later ⊢
        omega
      · simp [same] at later ⊢
        omega
    | returned y =>
      cases stack with
      | nil => cases followed
      | cons latest others =>
        simp only [outstanding] at followed
        split at followed
        · -- The latest block goes from the stack to the story.
          rename_i latestIs
          have later := ih followed
          by_cases same : y = x
          · simp [latestIs, same] at later ⊢
            omega
          · simp [latestIs, same] at later ⊢
            omega
        · cases followed

/-- A block is handed out as often as it occurs among those handed out. -/
theorem count_blocks (events : List (Loan β)) (x : β) :
    (blocks events).count x = events.count (.lent x) := by
  -- Only an event that hands the block out adds to either count.
  induction events with
  | nil => rfl
  | cons event rest ih =>
    cases event with
    | lent y => by_cases same : y = x <;> simpa [blocks, List.filterMap_cons, block?, same] using ih
    | returned y => simpa [blocks, List.filterMap_cons, block?] using ih

end Loan

/-- A backend's state with all that happened to blocks, in order. -/
structure Traced (σ β : Type) where
  inner : σ
  trace : List (Loan β)

namespace Traced

/-- Runs a step of the traced backend. -/
def within (body : Action σ ε τ) : Action (Traced σ β) ε τ :=
  Action.focus Traced.inner (fun inner t => { t with inner }) body

/-- Writes an event down. -/
def note (event : Loan β) : Action (Traced σ β) ε Unit :=
  modify fun t => { t with trace := t.trace ++ [event] }

/-- The backend that writes down which blocks it lends and which it is to take back. -/
def backend (be : Backend σ ε α β) : Backend (Traced σ β) ε α β where
  alloc n := do
    match ← within (be.alloc n) with
    | .error cause => return .error cause
    | .ok x =>
      note (.lent x)
      return .ok x
  free x := do
    -- A return is written down before it is known whether it was a proper one.
    note (.returned x)
    within (be.free x)
  offset x off := within (be.offset x off)
  fill dst value n := within (be.fill dst value n)
  zero dst n := within (be.zero dst n)
  copy src dst n := within (be.copy src dst n)
  add src dst n := within (be.add src dst n)
  mul src dst n := within (be.mul src dst n)
  exp dst n := within (be.exp dst n)

/-- Writing events down changes nothing about the calls. -/
theorem watches (be : Backend σ ε α β) : (backend be).Watches Traced.inner be where
  alloc n := by
    -- The answer is looked at to write it down, and then passed on as it is.
    have asked : Action.Shadows Traced.inner ((backend be).alloc n) (be.alloc n >>= pure) :=
      (Action.Shadows.focus (fun _ _ => rfl) (be.alloc n)).bind (fun answer => by
        cases answer with
        | error cause => exact Action.Shadows.pure _
        | ok x => exact (Action.Shadows.pure _).after (fun _ => rfl))
    rwa [bind_pure] at asked
  free x := (Action.Shadows.focus (fun _ _ => rfl) (be.free x)).after (fun _ => rfl)
  offset x off := .focus (fun _ _ => rfl) _
  one op x n := by cases op <;> exact .focus (fun _ _ => rfl) _
  two op x y n := by cases op <;> exact .focus (fun _ _ => rfl) _

/-- A step of the traced backend leaves what the step leaves, and writes nothing down. -/
theorem left_within (body : Action σ ε τ) (t : Traced σ β) :
    (within body).left t = { t with inner := body.left t.inner } := by
  -- The state of the backend is taken out, changed and put back; the trace is not touched.
  unfold Action.left Action.outcome within Action.focus
  cases body t.inner <;> rfl

variable {be : Backend σ ε α β} {t : Traced σ β} {n : Int64} {x : β} {s : σ}

/-- A block that is granted is written down. -/
theorem acquire_granted (granted : be.alloc n t.inner = .ok (.ok x) s) :
    (backend be).acquire n t = .ok (.ok ⟨x, n, false⟩) ⟨s, t.trace ++ [.lent x]⟩ := by
  -- The backend is asked first, and its answer is written down before it is passed on.
  have asked : within (β := β) (be.alloc n) t = .ok (.ok x) { t with inner := s } :=
    Action.focus_ok granted
  have lent : (backend be).alloc n t = .ok (.ok x) ⟨s, t.trace ++ [.lent x]⟩ :=
    Action.bind_ok asked
  exact Action.bind_ok lent

/-- A block that is taken back is written down. -/
theorem free_ok (freed : be.free x t.inner = .ok () s) :
    (backend be).free x t = .ok () ⟨s, t.trace ++ [.returned x]⟩ := by
  -- The return is written down before the backend is asked, which takes the block back.
  refine (Action.modify_bind _ _ _).trans ?_
  exact Action.focus_ok freed

/-- Where no block is granted, work on a borrowed block does not begin. -/
theorem left_withTemp_denied (denied : ∀ x s, be.alloc n t.inner ≠ .ok (.ok x) s)
    {refused : AllocError → ε} {body : Temp β → Action (Traced σ β) ε Unit} :
    ((backend be).withTemp n refused body).left t =
      { t with inner := (be.alloc n).left t.inner } := by
  cases asked : be.alloc n t.inner with
  | error halt s =>
    -- The stop is passed on.
    have stopped : within (β := β) (be.alloc n) t = .error halt { t with inner := s } := by
      simp only [within, Action.focus, asked]
    rw [Action.left_of_error asked]
    exact Action.left_of_error (Action.bind_error (Action.bind_error (Action.bind_error stopped)))
  | ok answer s =>
    cases answer with
    | error cause =>
      -- The refusal becomes an error.
      have asked' : within (β := β) (be.alloc n) t = .ok (.error cause) { t with inner := s } :=
        Action.focus_ok asked
      have answered : (backend be).alloc n t = .ok (.error cause) { t with inner := s } :=
        Action.bind_ok asked'
      have acquired : (backend be).acquire n t = .ok (.error cause) { t with inner := s } :=
        Action.bind_ok answered
      have failed : (backend be).withTemp n refused body t =
          .error (.error (refused cause)) { t with inner := s } := Action.bind_ok acquired
      rw [Action.left_of_ok asked]
      exact Action.left_of_error failed
    | ok x => exact absurd asked (denied x s)

end Traced

/--
A backend that keeps account of its loans.

The ledger says which blocks are on loan, and the number of the next one. Only lending and taking
back change it. A block that was lent can be taken back once everything lent after it was.
-/
structure Lender (be : Backend σ ε α β) (κ : Type) where
  ledger : σ → κ × Nat
  /-- The number that a block was lent under. -/
  number : β → Nat
  /-- Whether so many more blocks can be told from those on loan. -/
  ready : Nat → κ × Nat → Prop
  fewer : ∀ {b account}, ready (b + 1) account → ready b account
  offset : ∀ x off s, ledger ((be.offset x off).left s) = ledger s
  one : ∀ op x n s, ledger ((be.one op x n).left s) = ledger s
  two : ∀ op x y n s, ledger ((be.two op x y n).left s) = ledger s
  alloc : ∀ {b s} n, ready (b + 1) (ledger s) →
    ((∀ x s', be.alloc n s ≠ .ok (.ok x) s') ∧ ledger ((be.alloc n).left s) = ledger s) ∨
    ∃ x s', be.alloc n s = .ok (.ok x) s' ∧ number x = (ledger s).2 ∧
      (ledger s').2 = (ledger s).2 + 1 ∧ ready b (ledger s') ∧
      ∀ u, (ledger u).1 = (ledger s').1 → ∃ v, be.free x u = .ok () v ∧
        ledger v = ((ledger s).1, (ledger u).2) ∧ ∀ c, ready c (ledger u) → ready c (ledger v)

namespace Lender

variable {be : Backend σ ε α β}

/-- A ledger that allows more loans allows fewer. -/
theorem ready_mono (L : Lender be κ) {a b : Nat} {account : κ × Nat} (ready : L.ready b account)
    (fewer : a ≤ b) : L.ready a account := by
  -- Possible loans are given up one by one.
  induction fewer with
  | refl => exact ready
  | step _ ih => exact ih (L.fewer ready)

variable [DecidableEq β]

/-- Between two states all loans were settled, with so many more possible at the end. -/
structure Settled (L : Lender be κ) (b : Nat) (s s' : σ) (events : List (Loan β)) : Prop where
  ready : L.ready b (L.ledger s')
  same : (L.ledger s').1 = (L.ledger s).1
  nested : ∀ stack, Loan.outstanding stack events = some stack
  later : (L.ledger s).2 ≤ (L.ledger s').2
  numbered : ∀ x ∈ Loan.blocks events, (L.ledger s).2 ≤ L.number x ∧ L.number x < (L.ledger s').2
  distinct : (Loan.blocks events).Nodup

/-- A computation that settles its loans, of which there are at most so many. -/
def Settles (L : Lender be κ) (more : Nat) (body : Action (Traced σ β) ε τ) : Prop :=
  ∀ b t, L.ready (b + more) (L.ledger t.inner) →
    ∃ events, (body.left t).trace = t.trace ++ events ∧
      L.Settled b t.inner (body.left t).inner events

namespace Settled

variable {L : Lender be κ} {b c : Nat} {s s' s'' : σ} {first second : List (Loan β)}

/-- Where the ledger stays as it is there is nothing to settle. -/
theorem of_ledger (ready : L.ready b (L.ledger s)) (kept : L.ledger s' = L.ledger s) :
    L.Settled b s s' [] where
  -- No event stands between two equal ledgers.
  ready := kept ▸ ready
  same := by rw [kept]
  nested _ := rfl
  later := by rw [kept]
  numbered := by simp [Loan.blocks]
  distinct := .nil

/-- Loans that are settled one after the other are settled. -/
theorem trans (before : L.Settled b s s' first) (after : L.Settled c s' s'' second) :
    L.Settled c s s'' (first ++ second) where
  ready := after.ready
  same := after.same.trans before.same
  nested stack := by
    rw [Loan.outstanding_append, before.nested]
    exact after.nested stack
  later := Nat.le_trans before.later after.later
  numbered x listed := by
    rw [Loan.blocks_append, List.mem_append] at listed
    have early := before.later
    have late := after.later
    rcases listed with listed | listed
    · have range := before.numbered x listed
      omega
    · have range := after.numbered x listed
      omega
  distinct := by
    -- Later blocks have larger numbers, so no block occurs in both parts.
    rw [Loan.blocks_append]
    refine List.Nodup.append before.distinct after.distinct (fun x listed again => ?_)
    have range := before.numbered x listed
    have later := after.numbered x again
    omega

/-- Loans that are settled while a block is on loan are settled with the block. -/
theorem enclosed {x : β} {v : σ} (inside : L.Settled b s' s'' first)
    (number : L.number x = (L.ledger s).2) (next : (L.ledger s').2 = (L.ledger s).2 + 1)
    (account : L.ledger v = ((L.ledger s).1, (L.ledger s'').2)) (ready : L.ready c (L.ledger v)) :
    L.Settled c s v (.lent x :: first ++ [.returned x]) := by
  have later := inside.later
  -- The block is handed out before all others and given back after them.
  have blocks : Loan.blocks (.lent x :: first ++ [.returned x]) = x :: Loan.blocks first := by
    simp [Loan.blocks, List.filterMap_cons, Loan.block?]
  have after : (L.ledger v).2 = (L.ledger s'').2 := by rw [account]
  exact {
    ready
    same := by rw [account]
    nested := fun stack => by
      rw [List.cons_append, Loan.outstanding, Loan.outstanding_append, inside.nested]
      simp [Loan.outstanding]
    later := by omega
    numbered := fun y listed => by
      rw [blocks] at listed
      rcases List.mem_cons.mp listed with rfl | listed
      · omega
      · have range := inside.numbered y listed
        omega
    distinct := by
      rw [blocks]
      refine List.nodup_cons.mpr ⟨fun again => ?_, inside.distinct⟩
      have range := inside.numbered x again
      omega }

/-- A settled stretch leaves room for fewer loans, too. -/
theorem fewer (settled : L.Settled c s s' first) (less : b ≤ c) : L.Settled b s s' first :=
  -- A ledger that has room for some loans has room for fewer.
  { settled with ready := L.ready_mono settled.ready less }

end Settled

namespace Settles

variable {L : Lender be κ} {more rest : Nat}

/-- A computation that leaves the state alone has nothing to settle. -/
theorem still {body : Action (Traced σ β) ε τ} (kept : ∀ t, body.left t = t) :
    L.Settles 0 body := by
  -- No event was written down, and the ledger is the one from before.
  intro b t ready
  rw [kept]
  exact ⟨[], by simp, .of_ledger ready rfl⟩

/-- A step of the backend that is no loan has nothing to settle. -/
theorem within {body : Action σ ε τ} (kept : ∀ s, L.ledger (body.left s) = L.ledger s) :
    L.Settles 0 (Traced.within (β := β) body) := by
  -- The ledger is that of the backend, which the step does not touch.
  intro b t ready
  rw [Traced.left_within]
  exact ⟨[], by simp, .of_ledger ready (kept t.inner)⟩

/-- What is known beforehand has nothing to settle. -/
theorem ofExcept (answer : Except ε τ) :
    L.Settles 0 (Action.ofExcept answer : Action (Traced σ β) ε τ) := by
  -- It is an answer or a stop, and neither touches the state.
  cases answer <;> exact still (fun _ => rfl)

/-- A sequence settles the loans of its parts, also where it ends after the first. -/
theorem bind {body : Action (Traced σ β) ε τ} {next : τ → Action (Traced σ β) ε τ'}
    (first : L.Settles more body) (second : ∀ a, L.Settles rest (next a)) :
    L.Settles (more + rest) (body >>= next) := by
  intro b t ready
  rw [Nat.add_comm more, ← Nat.add_assoc] at ready
  obtain ⟨events, written, settled⟩ := first (b + rest) t ready
  rw [Action.left_bind]
  cases ran : body t with
  | error halt u =>
    rw [Action.left_of_error ran] at written settled
    exact ⟨events, written, settled.fewer (by omega)⟩
  | ok a u =>
    -- The second part starts from what the first one left.
    rw [Action.left_of_ok ran] at written settled
    obtain ⟨others, written', settled'⟩ := second a b u settled.ready
    refine ⟨events ++ others, ?_, settled.trans settled'⟩
    rw [written', written, List.append_assoc]

/-- Where some loans suffice, more do. -/
theorem enough {body : Action (Traced σ β) ε τ} (few : L.Settles more body) (less : more ≤ rest) :
    L.Settles rest body := by
  -- Room for more loans is room for these.
  intro b t ready
  exact few b t (L.ready_mono ready (by omega))

/-- A step without loans may come first. -/
theorem after {body : Action (Traced σ β) ε τ} {next : τ → Action (Traced σ β) ε τ'}
    (first : L.Settles 0 body) (second : ∀ a, L.Settles rest (next a)) :
    L.Settles rest (body >>= next) := by
  -- The room for the whole is that for the rest.
  simpa using first.bind second

/-- A step without loans may come last. -/
theorem before {body : Action (Traced σ β) ε τ} {next : τ → Action (Traced σ β) ε τ'}
    (first : L.Settles more body) (second : ∀ a, L.Settles 0 (next a)) :
    L.Settles more (body >>= next) :=
  -- The room for the whole is that for the first step.
  first.bind second

/-- Work on a borrowed block that settles its loans does so with the block, on every way out. -/
theorem withTemp {n : Int64} {refused : AllocError → ε}
    {body : Temp β → Action (Traced σ β) ε Unit} (works : ∀ temp, L.Settles more (body temp)) :
    L.Settles (more + 1) ((Traced.backend be).withTemp n refused body) := by
  intro b t ready
  rw [← Nat.add_assoc] at ready
  rcases L.alloc n ready with ⟨denied, kept⟩ | ⟨x, s, granted, number, next, ready', returns⟩
  · -- Without a block nothing happens, whether it was refused or could not be had.
    rw [Traced.left_withTemp_denied denied]
    exact ⟨[], by simp, .of_ledger (L.ready_mono ready (by omega)) kept⟩
  · -- The work starts with the block on loan; however it ends, the block is the latest again.
    obtain ⟨events, written, settled⟩ :=
      works ⟨x, n, false⟩ b ⟨s, t.trace ++ [.lent x]⟩ ready'
    obtain ⟨v, freed, account, keeps⟩ := returns _ settled.same
    have left : ((Traced.backend be).withTemp n refused body).left t =
        ⟨v, t.trace ++ (.lent x :: events ++ [.returned x])⟩ := by
      rw [Backend.withTemp, Action.left_bind, Traced.acquire_granted granted]
      refine (Action.left_closing (Traced.free_ok freed)).trans ?_
      simp [written]
    rw [left]
    refine ⟨_, rfl, settled.enclosed number next account (keeps b settled.ready)⟩

end Settles

end Lender

end Tangent
