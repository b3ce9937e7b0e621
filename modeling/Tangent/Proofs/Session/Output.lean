import Tangent.Proofs.Exec.Ending
import Tangent.Proofs.Session

/-!
What a session prints.

Logging, measuring and running a program print nothing, so the output of a run is the listing of its
program, if that is asked for, and the report on what the pass answered.
-/

namespace Tangent

/-- A part that answers is measured without printing anything. -/
theorem Task.answers_measured {σ ε τ : Type} {wrap : ε → SessionError} {start : Meter → σ}
    {meter : σ → Meter} {body : Action σ ε τ} {w : World} {a : τ} {t : σ}
    (ran : body (start w.meter) = .ok a t) :
    Answers (measured wrap start meter body) w (.ok a, t) "" :=
  -- Measurements are kept apart from the output.
  ⟨_, Session.measured_ok ran, by simp⟩

namespace Session

variable {s : Session} {p : Program Float} {seeds : NameMap Float}

/-- A program that runs in the memory of a session gives its pass an answer, and no output. -/
theorem answers_passProgram {h : Host Float}
    (runs : ∀ meter, ∃ m,
      Machine.run Host.kernels p s.load.1 ⟨s.load.2, meter, none, []⟩ = .ok () m ∧ m.host = h)
    (w : World) : Task.Answers (s.passProgram p) w (registers s.load.1 h) "" := by
  -- A program that runs has its frame, and the run is the one in that frame.
  obtain ⟨_, ran, _⟩ := runs .new
  obtain ⟨f, _, framed, _⟩ := Action.bind_eq_ok.mp ran
  have prepared := (Action.ofExcept_eq_ok.mp framed).1
  have linked : Host.symbols.link.mapError SessionError.link =
      .ok (Host.kernels : MachineKernels Float) := by
    rw [Host.link_symbols]
    rfl
  have ready : (Machine.prepare p s.load.1).mapError SessionError.run = .ok f := by
    rw [prepared]
    rfl
  unfold passProgram
  apply (Task.answers_ofExcept linked w).andThen
  intro w
  apply (Task.answers_ofExcept ready w).andThen
  intro w
  apply (s.answers_log _ _ _ w).andThen
  intro w
  -- What was measured before is all that the run can tell from the world.
  obtain ⟨m, ran, rfl⟩ := runs w.meter
  rw [Machine.run_eq_runIn prepared] at ran
  apply (Task.answers_measured ran).andThen
  intro w
  apply (s.answers_log _ _ _ w).andThen
  intro w
  exact Task.answers_pure _ w

/-- The program that a session runs along a direction, its own or that of its expression. -/
def Takes (s : Session) (seeds : NameMap Float) (p : Program Float) : Prop :=
  s.program? = some p ∨
    s.program? = none ∧
      Program.compile s.config.expression s.config.paths seeds s.config.runtime.maxTempElements =
        .ok p

/-- A pass that does not evaluate at once lists its program, if it is asked to, and runs it. -/
theorem answers_pass {found : Array Float × Array Float} (compiled : s.config.runtime.eager = false)
    (takes : s.Takes seeds p) (answers : ∀ w, Task.Answers (s.passProgram p) w found "")
    (listing : Bool) (w : World) :
    Task.Answers (s.pass seeds listing) w found (if listing then p.listing 0.0 else "") := by
  -- The listing is printed before the program is run.
  have listed (w : World) : Task.Answers
      (do if listing then Task.print (p.listing 0.0)
          s.passProgram p) w found (if listing then p.listing 0.0 else "") := by
    cases listing with
    | false => simpa using answers w
    | true =>
      have both : Task.Answers (Task.print (p.listing 0.0) >>= fun _ => s.passProgram p) w found
          (p.listing 0.0 ++ "") := (Task.answers_print (p.listing 0.0) w).bind answers
      rw [String.append_empty] at both
      simpa only [if_true] using both
  unfold pass
  simp only [compiled, Bool.false_eq_true, if_false]
  -- The session has its program, or compiles its expression, and prints nothing in doing so.
  rcases takes with own | ⟨none, made⟩
  · simp only [own]
    exact (Task.answers_pure p w).andThen listed
  · have along : s.compileAlong seeds w = .ok p w := by
      unfold compileAlong
      rw [made]
      rfl
    simp only [none]
    exact Task.Answers.andThen ⟨w, along, by simp⟩ listed

/-- What a run reports on the values and derivatives of its pass. -/
def report (s : Session) (found : Array Float × Array Float) : String :=
  heading s.source s.config.paths ++ summaryLine 10 "value" found.1 ++
    summaryLine 10 "derivative" found.2

/-- A run has printed all of its output when it comes to write its measurements. -/
theorem exists_run_eq {found : Array Float × Array Float} {text : String}
    (allowed : (s.listing && s.config.runtime.eager) = false)
    (answers : ∀ w, Task.Answers (s.pass s.config.seeds s.listing) w found text) (w : World) :
    ∃ w', s.run w = s.writeMetrics w' ∧ w'.out = w.out ++ (text ++ s.report found) := by
  obtain ⟨w₁, begun, quiet⟩ := s.answers_log .info "evaluating"
    [("expression", s.source), ("paths", toString s.config.paths),
      ("eager", toString s.config.runtime.eager)] w
  obtain ⟨w₂, passed, printed⟩ := answers w₁
  obtain ⟨w₃, finished, silent⟩ := s.answers_log .info "evaluation finished" [] w₂
  -- The world that the run comes to has the report behind what was printed before.
  refine ⟨{ w₃ with
    out := w₃.out ++ heading s.source s.config.paths ++ summaryLine 10 "value" found.1 ++
      summaryLine 10 "derivative" found.2 }, ?_, ?_⟩
  · unfold run
    simp only [allowed, Bool.false_eq_true, if_false]
    exact (Action.bind_ok begun).trans ((Action.bind_ok passed).trans (Action.bind_ok finished))
  · simp only [silent, printed, quiet, report, String.append_assoc, String.append_empty]

/-- Writing the measurements prints nothing. -/
theorem out_writeMetrics (s : Session) (w : World) :
    (s.writeMetrics.outcome w).2.out = w.out := by
  unfold writeMetrics
  split
  · -- The file is replaced before the log is told, or is left as it was.
    rw [Action.outcome, Action.get_bind]
    cases w.disk.replace s.metricsPath (bytesOf w.meter.exposition) with
    | error cause => simp
    | ok disk =>
      obtain ⟨w', told, printed⟩ := s.answers_log .info "metrics written"
        [("path", s.metricsPath)] { w with disk }
      simp only [Action.set_bind, told, printed, String.append_empty]
  · rfl

/-- A command that ends by writing measurements has printed, and succeeds if there are none. -/
theorem outcome_of_writeMetrics {task : Task Unit} {w w' : World} {text : String}
    (ends : task w = s.writeMetrics w') (printed : w'.out = w.out ++ text) :
    (task.outcome w).2.out = w.out ++ text ∧
      (s.metricsPath = "" → (task.outcome w).1 = .ok ()) := by
  -- Nothing is printed after the report, so the end of the command is that of its last part.
  have ended : task.outcome w = s.writeMetrics.outcome w' := by
    unfold Action.outcome
    rw [ends]
  rw [ended]
  constructor
  · rw [s.out_writeMetrics w', printed]
  · intro unmeasured
    unfold writeMetrics
    rw [unmeasured]
    rfl

/-- The output of a run, which succeeds if no measurements are to be written. -/
theorem outcome_run {found : Array Float × Array Float} {text : String}
    (allowed : (s.listing && s.config.runtime.eager) = false)
    (answers : ∀ w, Task.Answers (s.pass s.config.seeds s.listing) w found text) (w : World) :
    (s.run.outcome w).2.out = w.out ++ (text ++ s.report found) ∧
      (s.metricsPath = "" → (s.run.outcome w).1 = .ok ()) := by
  -- What is printed is known before measurements are written.
  obtain ⟨w', same, printed⟩ := exists_run_eq allowed answers w
  exact outcome_of_writeMetrics same printed

end Session

end Tangent
