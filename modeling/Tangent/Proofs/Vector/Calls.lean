import Tangent.Proofs.Walk.Transparent

/-!
Sequences of calls to a backend.

A sequence goes on after a call that stopped, and keeps how every call ended. Which blocks are held
is told by the calls and their ends alone, and a backend that watches another one sees the same.
-/

namespace Tangent

variable {σ τ ε α β : Type}

/-- A call to a backend. -/
inductive Call (α β : Type) where
  | alloc (n : Int64)
  | free (x : β)
  | offset (x : β) (off : Int64)
  | one (op : Unary α) (dst : β) (n : Int64)
  | two (op : Binary) (src dst : β) (n : Int64)

/-- The block that a call gives back. -/
def Call.freed? : Call α β → Option β
  | .free x => some x
  | _ => none

/-- What a call answers with. -/
inductive Reply (β : Type) where
  | block (answer : Except AllocError β)
  | part (x : β)
  | done

/-- Makes a call. -/
def Call.make (be : Backend σ ε α β) : Call α β → Action σ ε (Reply β)
  | .alloc n => do return .block (← be.alloc n)
  | .free x => do be.free x; return .done
  | .offset x off => do return .part (← be.offset x off)
  | .one op dst n => do be.one op dst n; return .done
  | .two op src dst n => do be.two op src dst n; return .done

section Outcomes

variable {be : Backend σ ε α β} {n : Int64} {s t : σ}

/-- A request is answered with what the backend says. -/
theorem Call.alloc_answered {answer : Except AllocError β} (asked : be.alloc n s = .ok answer t) :
    ((Call.alloc n).make be).outcome s = (.ok (.block answer), t) := by
  -- The answer is packed and nothing else is done.
  rw [Action.outcome, make, Action.bind_ok asked]
  rfl

/-- A request ends where the backend stops. -/
theorem Call.alloc_stopped {halt : Halt ε} (asked : be.alloc n s = .error halt t) :
    ((Call.alloc n).make be).outcome s = (.error halt, t) := by
  -- There is no answer to pack.
  rw [Action.outcome, make, Action.bind_error asked]

/-- What answers with nothing leaves its own state, whether it stops or not. -/
theorem Call.outcome_done (body : Action σ ε Unit) (s : σ) :
    (do body; return (Reply.done : Reply β)).outcome s =
      ((body.outcome s).1.map (fun _ => .done), (body.outcome s).2) := by
  -- Packing does nothing to the state.
  rw [Action.outcome_bind]
  obtain ⟨ended, t⟩ := body.outcome s
  cases ended <;> rfl

/-- A block is given back when the backend takes it. -/
theorem Call.free_answered {x : β} (taken : be.free x s = .ok () t) :
    ((Call.free x).make be).outcome s = (.ok .done, t) := by
  -- The backend answers with nothing.
  rw [make, outcome_done, Action.outcome, taken]
  rfl

end Outcomes

/-- A call and how it ended. -/
structure Event (ε α β : Type) where
  call : Call α β
  ended : Except (Halt ε) (Reply β)

/-- Makes calls one after the other, also after one that stopped. -/
def Backend.follow (be : Backend σ ε α β) : List (Call α β) → σ → List (Event ε α β) × σ
  | [], s => ([], s)
  | call :: rest, s =>
    let (ended, t) := (call.make be).outcome s
    let (events, u) := be.follow rest t
    (⟨call, ended⟩ :: events, u)

namespace Event

/-- Whether a block was asked for and refused. -/
def refused : Event ε α β → Bool
  | ⟨_, .ok (.block (.error _))⟩ => true
  | _ => false

/-- The blocks that are held after one more event, the latest first. -/
def held [DecidableEq β] (before : List β) : Event ε α β → List β
  | ⟨_, .ok (.block (.ok x))⟩ => x :: before
  -- A block that was not taken back is still held.
  | ⟨.free x, .ok _⟩ => before.erase x
  | _ => before

/-- The blocks that are held after events. -/
def heldAfter [DecidableEq β] (events : List (Event ε α β)) : List β := events.foldl held []

/-- An operation on elements changes nothing about what is held, and is not refused. -/
theorem held_of_done [DecidableEq β] (before : List β) {call : Call α β}
    (other : ∀ x, call ≠ .free x) (ended : Except (Halt ε) Unit) :
    held before ⟨call, ended.map (fun _ => .done)⟩ = before ∧
      refused (⟨call, ended.map (fun _ => .done)⟩ : Event ε α β) = false := by
  -- Blocks change hands only in answers to requests, and when they are given back.
  cases ended with
  | error halt => exact ⟨by cases call <;> rfl, rfl⟩
  | ok _ =>
    cases call with
    | free x => exact absurd rfl (other x)
    | _ => exact ⟨rfl, rfl⟩

/-- What is held after one more event. -/
theorem heldAfter_concat [DecidableEq β] (events : List (Event ε α β)) (e : Event ε α β) :
    heldAfter (events ++ [e]) = e.held (heldAfter events) := by
  -- The events are gone through from the first one on.
  simp [heldAfter]

end Event

/-- One more call is made on what the others left. -/
theorem Backend.follow_concat (be : Backend σ ε α β) (calls : List (Call α β)) (call : Call α β)
    (s : σ) :
    be.follow (calls ++ [call]) s =
      ((be.follow calls s).1 ++ [⟨call, ((call.make be).outcome (be.follow calls s).2).1⟩],
        ((call.make be).outcome (be.follow calls s).2).2) := by
  -- The first call leaves the state that all the others go on from.
  induction calls generalizing s with
  | nil => rfl
  | cons first rest ih =>
    simp only [List.cons_append, Backend.follow, ih]

namespace Backend.Watches

variable {part : τ → σ} {outer : Backend τ ε α β} {inner : Backend σ ε α β}

/-- Every call is handed on. -/
theorem make (watches : outer.Watches part inner) (call : Call α β) :
    Action.Shadows part (call.make outer) (call.make inner) := by
  -- The call itself is handed on, and its answer is packed on both sides.
  cases call with
  | alloc n => exact (watches.alloc n).bind (fun _ => .pure _)
  | free x => exact (watches.free x).bind (fun _ => .pure _)
  | offset x off => exact (watches.offset x off).bind (fun _ => .pure _)
  | one op dst n => exact (watches.one op dst n).bind (fun _ => .pure _)
  | two op src dst n => exact (watches.two op src dst n).bind (fun _ => .pure _)

/-- Calls end as on the backend that is watched, and leave of it what they leave there. -/
theorem follow (watches : outer.Watches part inner) (calls : List (Call α β)) (t : τ) :
    inner.follow calls (part t) = ((outer.follow calls t).1, part (outer.follow calls t).2) := by
  induction calls generalizing t with
  | nil => rfl
  | cons call rest ih =>
    -- The first call ends alike on both, and the others go on from there.
    have first : (call.make inner).outcome (part t) =
        (((call.make outer).outcome t).1, part ((call.make outer).outcome t).2) := by
      unfold Action.outcome
      rw [watches.make call t]
      cases call.make outer t <;> rfl
    simp only [Backend.follow, first, ih]

end Backend.Watches

end Tangent
