import Mathlib
import Tangent.Action

/-!
Laws of computations that may stop.

Where an answer came out of several steps, each of them answered. Over a state they also say what a
sequence, a closing step and a step on a part of the state leave behind, and when a computation is
another one on a part of its state.
-/

namespace Tangent

section Answers

variable {ε ε' σ τ : Type}

/-- An answer that was passed on was there. -/
theorem ok_of_bind {x : Except ε σ} {f : σ → Except ε τ} {b : τ}
    (passed : x >>= f = .ok b) : ∃ a, x = .ok a ∧ f a = .ok b := by
  -- An error would have been passed on in its place.
  cases x with
  | error cause => simp [Bind.bind, Except.bind] at passed
  | ok a => exact ⟨a, rfl, passed⟩

/-- An answer behind a condition that stops was reached past it. -/
theorem ok_of_guard {c : Prop} [Decidable c] {cause : ε} {rest : PUnit → Except ε τ} {b : τ}
    (passed : (if c then (throw cause : Except ε PUnit) >>= rest else rest ⟨⟩) = .ok b) :
    ¬ c ∧ rest ⟨⟩ = .ok b := by
  -- Where the condition holds, an error comes out.
  split at passed
  · simp [throw, throwThe, MonadExceptOf.throw, Bind.bind, Except.bind] at passed
  · exact ⟨‹_›, passed⟩

/-- A condition that stops lets the rest answer, or answers with its error. -/
theorem guard_eq {c : Prop} [Decidable c] (cause : ε) (rest : PUnit → Except ε τ) :
    (if c then (throw cause : Except ε PUnit) >>= rest else rest ⟨⟩) =
      if c then .error cause else rest ⟨⟩ := by
  -- Throwing is answering with an error, which skips the rest.
  split <;> rfl

/-- What follows an answer goes on with it. -/
theorem ok_bind (a : σ) (next : σ → Except ε τ) : Except.ok a >>= next = next a := rfl

/-- Errors are seen from the outside step by step. -/
theorem mapError_bind (f : ε → ε') (first : Except ε σ) (next : σ → Except ε τ) :
    (first >>= next).mapError f = first.mapError f >>= fun a => (next a).mapError f := by
  -- An error skips the second step on both sides.
  cases first <;> rfl

/-- A changed answer is one that was there. -/
theorem map_eq_ok {x : Except ε σ} {f : σ → τ} {b : τ} :
    x.map f = .ok b ↔ ∃ a, x = .ok a ∧ f a = b := by
  -- An error stays an error, so only an answer can become one.
  cases x <;> simp [Except.map]

/-- An answer that was changed was there. -/
theorem ok_of_map {x : Except ε σ} {f : σ → τ} {b : τ} (changed : x.map f = .ok b) :
    ∃ a, x = .ok a ∧ f a = b :=
  -- This is one half of the equivalence.
  map_eq_ok.mp changed

/-- An answer is there before its errors are seen from the outside. -/
theorem ok_of_mapError {x : Except ε σ} {f : ε → ε'} {a : σ} (given : x.mapError f = .ok a) :
    x = .ok a := by
  -- Errors stay errors whatever they are called, so the answer was there before.
  cases x with
  | error cause => simp [Except.mapError] at given
  | ok b => simpa [Except.mapError] using given

/-- An answer is there if something is left when errors are forgotten. -/
theorem ok_of_toOption {x : Except ε σ} {a : σ} (given : x.toOption = some a) : x = .ok a := by
  -- Only an answer leaves something behind when errors are forgotten.
  cases x with
  | error cause => cases given
  | ok b => rw [Option.some.inj given]

/-- A check that went through for a list went through for each of its members. -/
theorem ok_of_forM {check : σ → Except ε Unit} {xs : List σ} (passed : xs.forM check = .ok ()) :
    ∀ x ∈ xs, check x = .ok () := by
  -- The checks are run one after the other, and the first that fails would be the answer.
  induction xs with
  | nil => simp
  | cons x rest ih =>
    obtain ⟨_, first, others⟩ := ok_of_bind passed
    intro y listed
    rcases List.mem_cons.mp listed with rfl | listed
    · exact first
    · exact ih others y listed

end Answers

namespace Action

variable {σ τ ε ε' α β : Type}

/-- An answer leaves the state alone. -/
@[simp] theorem pure_apply (a : α) (s : σ) : (pure a : Action σ ε α) s = .ok a s := rfl

/-- An error leaves the state alone. -/
@[simp] theorem fail_apply (cause : ε) (s : σ) :
    (fail cause : Action σ ε α) s = .error (.error cause) s := rfl

/-- A described misuse leaves the state alone. -/
@[simp] theorem panic_apply (text : String) (s : σ) :
    (panic text : Action σ ε α) s = .error (.fault (.panic text)) s := rfl

/-- An access outside memory leaves the state alone. -/
@[simp] theorem access_apply (s : σ) :
    (access : Action σ ε α) s = .error (.fault .access) s := rfl

/-- A stop leaves the state alone. -/
@[simp] theorem throw_apply (halt : Halt ε) (s : σ) :
    (throw halt : Action σ ε α) s = .error halt s := rfl

/-- Reading the state answers with it. -/
@[simp] theorem get_apply (s : σ) : (get : Action σ ε σ) s = .ok s s := rfl

/-- Writing the state replaces it. -/
@[simp] theorem set_apply (s t : σ) : (set t : Action σ ε PUnit) s = .ok ⟨⟩ t := rfl

/-- Changing the state replaces it by its image. -/
@[simp] theorem modify_apply (f : σ → σ) (s : σ) :
    (modify f : Action σ ε PUnit) s = .ok ⟨⟩ (f s) := rfl

/-- An answer that is no error goes on. -/
@[simp] theorem ofExcept_ok (a : α) (s : σ) :
    (ofExcept (.ok a) : Action σ ε α) s = .ok a s := rfl

/-- An answer that is an error stops. -/
@[simp] theorem ofExcept_error (cause : ε) (s : σ) :
    (ofExcept (.error cause) : Action σ ε α) s = .error (.error cause) s := rfl

/-- A sequence runs its second part on what the first one left. -/
theorem bind_apply (x : Action σ ε α) (f : α → Action σ ε β) (s : σ) :
    (x >>= f) s =
      match x s with
      | .ok a s => f a s
      | .error halt s => .error halt s := by
  -- The two matches differ in name only.
  show EStateM.bind x f s = _
  unfold EStateM.bind
  cases x s <;> rfl

/-- A sequence goes on after an answer. -/
theorem bind_ok {x : Action σ ε α} {f : α → Action σ ε β} {s s' : σ} {a : α}
    (ran : x s = .ok a s') : (x >>= f) s = f a s' := by
  -- The sequence looks at how its first part ends, and goes on with the answer.
  rw [bind_apply, ran]

/-- A sequence ends where its first part stops. -/
theorem bind_error {x : Action σ ε α} {f : α → Action σ ε β} {s s' : σ} {halt : Halt ε}
    (ran : x s = .error halt s') : (x >>= f) s = .error halt s' := by
  -- The sequence looks at how its first part ends, and does not go on.
  rw [bind_apply, ran]

/-- An answer that may be an error answers only if it is none. -/
theorem ofExcept_eq_ok {x : Except ε α} {a : α} {s s' : σ} :
    (ofExcept x : Action σ ε α) s = .ok a s' ↔ x = .ok a ∧ s' = s := by
  -- Neither answer touches the state.
  cases x with
  | ok b => simp [eq_comm]
  | error cause => simp

/-- A sequence answers only if both of its parts do. -/
theorem bind_eq_ok {x : Action σ ε α} {f : α → Action σ ε β} {s s'' : σ} {b : β} :
    (x >>= f) s = .ok b s'' ↔ ∃ a s', x s = .ok a s' ∧ f a s' = .ok b s'' := by
  -- A first part that stops leaves nothing to go on from.
  rw [bind_apply]
  cases ran : x s with
  | ok a s' => simp
  | error halt s' => simp

/-- A sequence that reads the state first goes on with it. -/
@[simp] theorem get_bind (f : σ → Action σ ε β) (s : σ) : (get >>= f) s = f s s := bind_ok rfl

/-- A sequence that writes the state first goes on from it. -/
@[simp] theorem set_bind (t : σ) (f : PUnit → Action σ ε β) (s : σ) :
    (set t >>= f) s = f ⟨⟩ t := bind_ok rfl

/-- A sequence that changes the state first goes on from its image. -/
@[simp] theorem modify_bind (g : σ → σ) (f : PUnit → Action σ ε β) (s : σ) :
    (modify g >>= f) s = f ⟨⟩ (g s) := bind_ok rfl

/-- A sequence that fails first goes no further. -/
@[simp] theorem fail_bind (cause : ε) (f : α → Action σ ε β) (s : σ) :
    (fail cause >>= f) s = .error (.error cause) s := bind_error rfl

/-- A sequence that starts with a misuse goes no further. -/
@[simp] theorem panic_bind (text : String) (f : α → Action σ ε β) (s : σ) :
    (panic text >>= f) s = .error (.fault (.panic text)) s := bind_error rfl

/-- A sequence that starts outside memory goes no further. -/
@[simp] theorem access_bind (f : α → Action σ ε β) (s : σ) :
    (access >>= f) s = .error (.fault .access) s := bind_error rfl

/-- A closing step runs after an answer, which it keeps. -/
theorem closing_ok {body : Action σ ε α} {close : Action σ ε Unit} {s t u : σ} {a : α}
    (ran : body s = .ok a t) (closed : close t = .ok () u) : body.closing close s = .ok a u := by
  -- The computation is run first and the closing step on what it leaves.
  simp only [closing, ran, closed]

/-- A closing step runs after a stop, which it keeps. -/
theorem closing_error {body : Action σ ε α} {close : Action σ ε Unit} {s t u : σ} {halt : Halt ε}
    (ran : body s = .error halt t) (closed : close t = .ok () u) :
    body.closing close s = .error halt u := by
  -- The closing step is run on what the stop left behind.
  simp only [closing, ran, closed]

/-- An answer is the same seen from the outside. -/
theorem adapt_ok {f : ε → ε'} {body : Action σ ε α} {s t : σ} {a : α} (ran : body s = .ok a t) :
    body.adapt f s = .ok a t := by
  -- Only stops are changed on the way out.
  simp only [adapt, ran]

/-- A stop is mapped when it is seen from the outside. -/
theorem adapt_error {f : ε → ε'} {body : Action σ ε α} {s t : σ} {halt : Halt ε}
    (ran : body s = .error halt t) : body.adapt f s = .error (halt.map f) t := by
  -- The stop is all that is changed on the way out.
  simp only [adapt, ran]

/-- What answers seen from the outside answers. -/
theorem ok_of_adapt {f : ε → ε'} {body : Action σ ε α} {s t : σ} {a : α}
    (ran : body.adapt f s = .ok a t) : body s = .ok a t := by
  -- A stop would be seen as a stop.
  cases ended : body s with
  | ok b u =>
    rw [adapt_ok ended] at ran
    cases ran
    rfl
  | error halt u =>
    rw [adapt_error ended] at ran
    cases ran

/-- A computation on a part answers with the part put back. -/
theorem focus_ok {get : τ → σ} {put : σ → τ → τ} {body : Action σ ε α} {t : τ} {s : σ} {a : α}
    (ran : body (get t) = .ok a s) : focus get put body t = .ok a (put s t) := by
  -- The part is taken out, worked on and put back.
  simp only [focus, ran]

/-- A computation on a part that stops leaves the part as it does. -/
theorem focus_error {get : τ → σ} {put : σ → τ → τ} {body : Action σ ε α} {t : τ} {s : σ}
    {halt : Halt ε} (stopped : body (get t) = .error halt s) :
    focus get put body t = .error halt (put s t) := by
  -- The part is put back however the work on it ended.
  simp only [focus, stopped]

/-- An outcome without a stop is that of a computation that went through. -/
theorem eq_ok_of_outcome {body : Action σ ε α} {s t : σ} {a : α}
    (ran : body.outcome s = (.ok a, t)) : body s = .ok a t := by
  -- The outcome has the answer or the stop, together with the state that is left.
  unfold outcome at ran
  cases ended : body s with
  | ok a s' =>
    rw [ended] at ran
    cases ran
    rfl
  | error halt s' =>
    rw [ended] at ran
    cases ran

/-- An outcome with a stop is that of a computation that stopped. -/
theorem eq_error_of_outcome {body : Action σ ε α} {s t : σ} {halt : Halt ε}
    (stopped : body.outcome s = (.error halt, t)) : body s = .error halt t := by
  -- An answer would have been part of the outcome.
  unfold outcome at stopped
  cases ended : body s with
  | ok a s' =>
    rw [ended] at stopped
    cases stopped
  | error halt' s' =>
    rw [ended] at stopped
    cases stopped
    rfl

/-- What follows a computation decides about the outcome, unless the computation stops. -/
theorem outcome_bind (body : Action σ ε α) (next : α → Action σ ε β) (s : σ) :
    (body >>= next).outcome s =
      match body.outcome s with
      | (.ok a, t) => (next a).outcome t
      | (.error halt, t) => (.error halt, t) := by
  -- Both sides look at how the computation ends.
  unfold outcome
  cases ended : body s with
  | ok a t => rw [bind_ok ended]
  | error halt t => rw [bind_error ended]

/-- A closing step leaves the outcome as it was, unless it stops itself. -/
theorem outcome_closing (body : Action σ ε α) (close : Action σ ε Unit) (s : σ) :
    (body.closing close).outcome s =
      match close.outcome (body.outcome s).2 with
      | (.ok _, t) => ((body.outcome s).1, t)
      | (.error later, t) => (.error later, t) := by
  -- The closing step is run in both cases, and only its own stop replaces the outcome.
  unfold outcome closing
  cases body s with
  | ok a t =>
    dsimp only
    cases close t <;> rfl
  | error halt t =>
    dsimp only
    cases close t <;> rfl

/-- An outer computation does to a part of its state what an inner one does to all of its own. -/
def Shadows (part : τ → σ) (outer : Action τ ε α) (inner : Action σ ε α) : Prop :=
  ∀ t, inner (part t) =
    match outer t with
    | .ok a t => .ok a (part t)
    | .error halt t => .error halt (part t)

namespace Shadows

variable {part : τ → σ}

/-- An answer is the same on every state. -/
theorem pure (a : α) : Shadows part (Pure.pure a : Action τ ε α) (Pure.pure a) := fun _ => rfl

/-- A stop is the same on every state. -/
theorem throw (halt : Halt ε) :
    Shadows part (throw halt : Action τ ε α) (MonadExcept.throw halt) := fun _ => rfl

/-- What is known beforehand is the same on every state. -/
theorem ofExcept (answer : Except ε α) :
    Shadows part (Action.ofExcept answer : Action τ ε α) (Action.ofExcept answer) := by
  -- It is an answer or a stop.
  cases answer with
  | ok a => exact pure a
  | error cause => exact throw (.error cause)

/-- Sequences go on step by step. -/
theorem bind {outer : Action τ ε α} {inner : Action σ ε α} {next : α → Action τ ε β}
    {next' : α → Action σ ε β} (first : Shadows part outer inner)
    (rest : ∀ a, Shadows part (next a) (next' a)) :
    Shadows part (outer >>= next) (inner >>= next') := by
  intro t
  have same := first t
  -- What the first step comes to on the outside it comes to on the inside.
  cases ran : outer t with
  | ok a u =>
    rw [ran] at same
    rw [bind_ok ran, bind_ok same]
    exact rest a u
  | error halt u =>
    rw [ran] at same
    rw [bind_error ran, bind_error same]

/-- Closing steps run on every way out. -/
theorem closing {outer : Action τ ε α} {inner : Action σ ε α} {close : Action τ ε Unit}
    {close' : Action σ ε Unit} (body : Shadows part outer inner)
    (closes : Shadows part close close') :
    Shadows part (outer.closing close) (inner.closing close') := by
  intro t
  have same := body t
  unfold Action.closing
  -- The closing step has the last word unless it goes through.
  cases ran : outer t with
  | ok a u =>
    have last := closes u
    simp only [ran] at same
    simp only [same, last]
    cases close u <;> rfl
  | error halt u =>
    have last := closes u
    simp only [ran] at same
    simp only [same, last]
    cases close u <;> rfl

/-- Errors may be seen from the outside. -/
theorem adapt {outer : Action τ ε α} {inner : Action σ ε α} (body : Shadows part outer inner)
    (f : ε → ε') : Shadows part (outer.adapt f) (inner.adapt f) := by
  -- Errors are mapped the same on both sides.
  intro t
  have same := body t
  unfold Action.adapt
  rw [same]
  cases outer t <;> rfl

/-- A change of the rest of the state is not seen in the part. -/
theorem after {outer : Action τ ε α} {inner : Action σ ε α} (body : Shadows part outer inner)
    {f : τ → τ} (unseen : ∀ t, part (f t) = part t) :
    Shadows part (do modify f; outer) inner := by
  -- The part is the same after the change, so the rest starts from it.
  intro t
  rw [modify_bind, ← unseen t]
  exact body (f t)

/-- A computation on the part is one with the rest of the state around it. -/
theorem focus {put : σ → τ → τ} (kept : ∀ s t, part (put s t) = s) (inner : Action σ ε α) :
    Shadows part (Action.focus part put inner) inner := by
  -- The part is put back as the inner computation leaves it.
  intro t
  unfold Action.focus
  cases inner (part t) with
  | ok a s => simp only [kept]
  | error halt s => simp only [kept]

/-- Where the inner computation answers, the outer one does. -/
theorem exists_ok {outer : Action τ ε α} {inner : Action σ ε α} (shadows : Shadows part outer inner)
    {t : τ} {s : σ} {a : α} (ran : inner (part t) = .ok a s) :
    ∃ t', outer t = .ok a t' ∧ part t' = s := by
  -- Both end in the same way, so the outer computation cannot have stopped.
  have same := shadows t
  cases ended : outer t with
  | ok b u =>
    simp only [ran, ended, EStateM.Result.ok.injEq] at same
    exact ⟨u, by rw [same.1], same.2.symm⟩
  | error halt u => simp [ran, ended] at same

/-- Where the inner computation stops, the outer one does. -/
theorem exists_error {outer : Action τ ε α} {inner : Action σ ε α}
    (shadows : Shadows part outer inner) {t : τ} {s : σ} {halt : Halt ε}
    (stopped : inner (part t) = .error halt s) :
    ∃ t', outer t = .error halt t' ∧ part t' = s := by
  -- Both end in the same way, so the outer computation cannot have answered.
  have same := shadows t
  cases ended : outer t with
  | ok b u => simp [stopped, ended] at same
  | error halt u =>
    simp only [stopped, ended, EStateM.Result.error.injEq] at same
    exact ⟨u, by rw [same.1], same.2.symm⟩

/-- A part of a part is a part. -/
theorem trans {υ : Type} {piece : υ → τ} {outer : Action υ ε α} {middle : Action τ ε α}
    {inner : Action σ ε α} (first : Shadows piece outer middle)
    (second : Shadows part middle inner) : Shadows (part ∘ piece) outer inner := by
  -- The middle computation is seen in the outer one, and the inner one in the middle.
  intro u
  have same := second (piece u)
  rw [first u] at same
  show inner (part (piece u)) = _
  rw [same]
  cases outer u <;> rfl

end Shadows

end Action

end Tangent
