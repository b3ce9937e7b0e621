import Tangent.Proofs.Action
import Tangent.Session

/-! What tasks print before they answer. -/

namespace Tangent

namespace Task

variable {τ υ : Type}

/-- A task that answers, and has printed a text by then. -/
def Answers (task : Task τ) (w : World) (a : τ) (text : String) : Prop :=
  -- Nothing is said about the log, the files and the measurements.
  ∃ w', task w = .ok a w' ∧ w'.out = w.out ++ text

variable {task : Task τ} {next : τ → Task υ} {w : World} {a : τ} {b : υ} {text more : String}

/-- Texts are printed one after the other. -/
theorem Answers.bind (first : Answers task w a text) (rest : ∀ w, Answers (next a) w b more) :
    Answers (task >>= next) w b (text ++ more) := by
  -- The second task starts in the world that the first one leaves.
  obtain ⟨w₁, answered, printed⟩ := first
  obtain ⟨w₂, ended, reprinted⟩ := rest w₁
  refine ⟨w₂, (Action.bind_ok answered).trans ended, ?_⟩
  rw [reprinted, printed, String.append_assoc]

/-- What prints nothing is not seen in what follows. -/
theorem Answers.andThen (first : Answers task w a "") (rest : ∀ w, Answers (next a) w b text) :
    Answers (task >>= next) w b text := by
  -- An empty text in front is not seen.
  simpa using first.bind rest

/-- A task may look at the world first. -/
theorem answers_get {next : World → Task υ} (rest : Answers (next w) w b text) :
    Answers (get >>= next) w b text := by
  -- Looking at the world neither prints nor changes anything.
  rw [Answers, Action.get_bind]
  exact rest

/-- An answer prints nothing. -/
theorem answers_pure (a : τ) (w : World) : Answers (pure a) w a "" := ⟨w, rfl, by simp⟩

/-- An answer that is known beforehand prints nothing. -/
theorem answers_ofExcept {answer : Except SessionError τ} (given : answer = .ok a) (w : World) :
    Answers (Action.ofExcept answer) w a "" := by
  -- The answer is there already, so nothing is done for it.
  subst given
  exact answers_pure a w

/-- What does not touch the output prints nothing. -/
theorem answers_modify {change : World → World} (quiet : (change w).out = w.out) :
    Answers (modify change) w () "" :=
  -- The world is replaced by the changed one, with the output it had.
  ⟨change w, rfl, by rw [quiet, String.append_empty]⟩

/-- An answer is the same whatever errors would have been called. -/
theorem Answers.adapt {wrap : SessionError → SessionError} (answers : Answers task w a text) :
    Answers (Action.adapt wrap task) w a text := by
  -- Only errors are called something else, and there is none.
  obtain ⟨w', answered, printed⟩ := answers
  exact ⟨w', Action.adapt_ok answered, printed⟩

/-- Printing prints. -/
theorem answers_print (text : String) (w : World) : Answers (print text) w () text := ⟨_, rfl, rfl⟩

end Task

/-- Logging prints nothing. -/
theorem Session.answers_log (s : Session) (level : Level) (message : String)
    (details : List (String × String)) (w : World) :
    Task.Answers (s.log level message details) w () "" := by
  -- What is below the level of the session is dropped.
  unfold log Task.log
  split
  · exact ⟨_, rfl, by simp⟩
  · exact Task.answers_pure () w

end Tangent
