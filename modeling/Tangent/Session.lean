import Tangent.Config.Document
import Tangent.Config.Inputs
import Tangent.Disk
import Tangent.Evaluate
import Tangent.Exec.Run
import Tangent.File.Codec
import Tangent.Log
import Tangent.Metrics.Exposition
import Tangent.Sample.Summary
import Tangent.Vector.Counting

/-!
A session evaluates what a description of a run says.

It evaluates along one direction, along every variable in turn, or saves the program to be run
later. What it prints, logs, measures and saves stays when it fails.
-/

namespace Tangent

/-- Why a session failed. -/
inductive SessionError where
  | config (cause : ConfigError)
  | configFile (cause : DiskError)
  | logLevel (cause : LevelError)
  | eagerProgram
  | eagerListing
  | gradientListing
  | undeclaredInput (name : String)
  | pathsDisagree (program asked : Int64)
  | programFile (cause : DiskError)
  | file (cause : FileError)
  | saveFile (cause : DiskError)
  | compile (cause : CompileError)
  | link (cause : LinkError)
  | run (cause : RunError)
  | evaluate (cause : EvalError)
  | metricsFile (cause : DiskError)
  /-- The pass along a variable failed. -/
  | along (name : String) (cause : SessionError)

/-- The message of a session error. -/
def SessionError.message : SessionError → String
  | .config cause => cause.message
  | .configFile cause => s!"read config: {cause.message}"
  | .logLevel cause => s!"{Config.invalidText}: log level: {cause.message}"
  | .eagerProgram => s!"{Config.invalidText}: a saved program cannot run eagerly"
  | .eagerListing =>
    s!"{Config.invalidText}: --dump prints a compiled program and cannot be combined with " ++
      "eager evaluation"
  | .gradientListing =>
    s!"{Config.invalidText}: --dump is not supported by gradient; use run or compile"
  | .undeclaredInput name =>
    s!"{Config.invalidText}: program reads undeclared variable {Text.quote name}"
  | .pathsDisagree program asked =>
    s!"{Config.invalidText}: program was compiled for {program} paths, --paths asks for {asked}"
  | .programFile cause => s!"failed to open file: {cause.message}"
  | .file cause => cause.message
  | .saveFile cause => s!"failed to create file: {cause.message}"
  | .compile cause => cause.message
  | .link cause => cause.message
  | .run cause => cause.message
  | .evaluate cause => cause.message
  | .metricsFile cause => s!"write metrics: {cause.message}"
  | .along name cause => s!"d/d{name}: {cause.message}"

/-- What a session can change. -/
structure World where
  disk : Disk
  /-- What was printed. -/
  out : String
  /-- Lines of the log. -/
  log : List String
  meter : Meter

/-- Some files, before anything was done. -/
def World.start (disk : Disk) : World := ⟨disk, "", [], .new⟩

/-- A task of a session. What it did before it failed stays. -/
abbrev Task := Action World SessionError

/-- What a session is told about the machine it runs on. -/
structure Platform where
  /-- The number of processors. -/
  processors : Int64
  /-- The time that saved programs are given, if it is told. -/
  stamp : Option String
  valid : Header.ValidStamp stamp

/-- One processor and no clock. -/
def Platform.plain : Platform := ⟨1, none, Header.validStamp_none⟩

/-- What a session works with. -/
structure Session where
  platform : Platform
  config : Config
  /-- Records that matter less are not told. -/
  level : Level
  /-- Whether programs are listed before they run. -/
  listing : Bool
  /-- The file that measurements go to, or nothing. -/
  metricsPath : String
  /-- A saved program that runs instead of the expression. -/
  program? : Option (Program Float)
  data : NameMap (Array Float)

namespace Task

/-- Prints a text. -/
def print (text : String) : Task Unit := modify fun w => { w with out := w.out ++ text }

/-- Logs a record if it matters enough. -/
def log (least : Level) (level : Level) (message : String) (details : List (String × String)) :
    Task Unit :=
  if least ≤ level then
    modify fun w => { w with log := w.log ++ [(⟨level, message, details⟩ : LogRecord).line] }
  else pure ()

/-- Runs a part on a state of its own that carries the measurements. -/
def measured {σ ε τ : Type} (wrap : ε → SessionError) (start : Meter → σ) (meter : σ → Meter)
    (body : Action σ ε τ) : Task (Except (Halt SessionError) τ × σ) := do
  let (ended, s) := body.outcome (start (← get).meter)
  modify fun w => { w with meter := meter s }
  return (ended.mapError (·.map wrap), s)

/-- Goes on with an answer, or stops where it stopped. -/
def ofOutcome {τ : Type} : Except (Halt SessionError) τ → Task τ
  | .ok a => pure a
  | .error halt => throw halt

end Task

namespace Session

/-- How kernels cut their ranges: for each processor, unless another number of workers is given. -/
def chunking (processors workers : Int64) : Chunking :=
  ⟨processors > 1, if workers > 0 then workers else processors, 16384⟩

/-- Fresh memory for a pass. -/
def host (s : Session) : Host Float :=
  .new s.config.runtime.maxTempElements
    (chunking s.platform.processors s.config.runtime.workers)

/-- Puts the data of names into memory. -/
def adoptAll (h : Host Float) : List (String × Array Float) → NameMap View × Host Float
  | [] => (.empty, h)
  | (name, data) :: rest =>
    let (view, h) := h.adopt data
    let (views, h) := adoptAll h rest
    (views.insert name view, h)

/-- Memory for a pass with the two registers and the data of all inputs in it. -/
def load (s : Session) : Memory × Host Float :=
  let blank : Array Float := Array.replicate s.config.paths.toNatClampNeg 0.0
  let (value, h) := s.host.adopt blank
  let (deriv, h) := h.adopt blank
  let (vars, h) := adoptAll h s.data.entries
  (⟨value, deriv, vars⟩, h)

/-- The contents of the two registers. -/
def registers (memory : Memory) (h : Host Float) : Array Float × Array Float :=
  (h.contents memory.value, h.contents memory.deriv)

/-- Logs a record if it matters enough to the session. -/
def log (s : Session) (level : Level) (message : String) (details : List (String × String)) :
    Task Unit :=
  Task.log s.level level message details

/-- Memory that counts and measures. -/
abbrev Watched := Counted (Metered (Host Float)) View

/-- Evaluates the expression along a direction without compiling it. -/
def passEager (s : Session) (seeds : NameMap Float) : Task (Array Float × Array Float) := do
  let (memory, h) := s.load
  -- A variable without a seed stands still along the direction.
  let bindings := memory.vars.mapValues fun name view =>
    (⟨view, (seeds.find? name).getD 0.0⟩ : Binding Float View)
  let body : Action Watched EvalError Unit :=
    evaluate (Counted.backend (Metered.backend Host.backend)) s.config.expression bindings
      memory.value memory.deriv
  let (ended, c) ← Task.measured .evaluate (fun meter => .new ⟨h, meter⟩) (·.inner.meter) body
  match ended with
  -- A misuse ends the session before the run is counted.
  | .error (.fault misuse) => throw (.fault misuse)
  | .error (.error cause) =>
    modify fun w => { w with meter := w.meter.run false }
    Action.fail cause
  | .ok () =>
    modify fun w => { w with meter := w.meter.run true }
    s.log .debug "eager evaluation"
      [("allocs", toString (c.calls.count .alloc)), ("temp_peak", toString c.peakElements)]
    return registers memory c.inner.inner

/-- The program of the expression along a direction. -/
def compileAlong (s : Session) (seeds : NameMap Float) : Task (Program Float) :=
  Task.ofOutcome ((Program.compile s.config.expression s.config.paths seeds
    s.config.runtime.maxTempElements).mapError (·.map .compile))

/-- How a run ended, as the log tells it. -/
def endText : Except (Halt SessionError) Unit → String
  | .error (.error cause) => cause.message
  | _ => "<nil>"

/-- Runs a program. -/
def passProgram (s : Session) (p : Program Float) : Task (Array Float × Array Float) := do
  let kernels ← Action.ofExcept (Host.symbols.link.mapError .link)
  let (memory, h) := s.load
  -- Memory that does not fit is noticed before the run begins, so no run is counted for it.
  let frame ← Action.ofExcept ((Machine.prepare p memory).mapError .run)
  s.log .debug "program start"
    [("paths", toString p.paths), ("instrs", toString p.instrs.length),
      ("temp_peak", toString p.peak)]
  let start (meter : Meter) : Machine Float := ⟨h, meter, none, []⟩
  let (ended, m) ← Task.measured .run start Machine.meter (Machine.runIn kernels p frame)
  -- The log tells of the end also where the run failed.
  s.log .debug "program finished" [("error", endText ended)]
  Task.ofOutcome ended
  return registers memory m.host

/-- Evaluates along a direction; the values and derivatives of all paths. -/
def pass (s : Session) (seeds : NameMap Float) (listing : Bool) :
    Task (Array Float × Array Float) := do
  if s.config.runtime.eager then s.passEager seeds
  else
    let p ←
      match s.program? with
      | some p => pure p
      | none => s.compileAlong seeds
    -- A program is listed before it runs, so its listing is printed even if the run fails.
    if listing then Task.print (p.listing 0.0)
    s.passProgram p

/-- The written form of what is evaluated. -/
def source (s : Session) : String :=
  match s.program? with
  | some p => p.source
  | none => s.config.expression.write.toOption.getD ""

/-- A label, padded to a width, and the summary of a sample. -/
def summaryLine (width : Nat) (label : String) (sample : Array Float) : String :=
  let summary := Sample.summarize sample.toList
  let padding := String.ofList (List.replicate (width - label.length) ' ')
  s!"{label}{padding}  mean={Decimal.significant 6 summary.mean}" ++
    s!"  stderr={Decimal.significant 3 summary.error}" ++
    s!"  min={Decimal.significant 6 summary.least}" ++
    s!"  max={Decimal.significant 6 summary.greatest}\n"

/-- What every report starts with. -/
def heading (source : String) (paths : Int64) : String :=
  s!"expression: {source}\npaths:      {paths}\n"

/-- Writes the measurements, if there is a file for them. -/
def writeMetrics (s : Session) : Task Unit := do
  if !s.metricsPath.isEmpty then
    let w ← get
    match w.disk.replace s.metricsPath (bytesOf w.meter.exposition) with
    | .error cause => Action.fail (.metricsFile cause)
    | .ok disk => set { w with disk }
    s.log .info "metrics written" [("path", s.metricsPath)]

/-- Evaluates along the configured direction and reports. -/
def run (s : Session) : Task Unit := do
  if s.listing && s.config.runtime.eager then Action.fail .eagerListing
  s.log .info "evaluating"
    [("expression", s.source), ("paths", toString s.config.paths),
      ("eager", toString s.config.runtime.eager)]
  let (value, deriv) ← s.pass s.config.seeds s.listing
  s.log .info "evaluation finished" []
  Task.print (heading s.source s.config.paths)
  Task.print (summaryLine 10 "value" value)
  Task.print (summaryLine 10 "derivative" deriv)
  s.writeMetrics

/-- The direction along one variable. -/
def alongVariable (s : Session) (name : String) : NameMap Float :=
  (s.data.mapValues (fun _ _ => 0.0)).insert name 1.0

/-- Evaluates along variables, one after the other. -/
def partials (s : Session) : List String → Task (List (String × Array Float × Array Float))
  | [] => return []
  | name :: rest => do
    let found ← (s.pass (s.alongVariable name) false).adapt (.along name)
    s.log .debug "pass finished" [("variable", name)]
    return (name, found) :: (← s.partials rest)

/-- Evaluates along every variable of the expression and reports. -/
def gradient (s : Session) : Task Unit := do
  if s.listing then Action.fail .gradientListing
  -- Without variables there is nothing to differentiate along, and one pass says everything.
  match ← s.partials s.config.names with
  | [] => s.run
  | (name, value, deriv) :: rest =>
    let found := (name, value, deriv) :: rest
    let label (name : String) : String := "d/d" ++ name
    -- The width is counted in bytes, but a label is padded by its characters.
    let width := found.foldl (fun width entry => max width (label entry.1).utf8ByteSize) 5
    Task.print (heading (s.config.expression.write.toOption.getD "") s.config.paths)
    Task.print (summaryLine width "value" value)
    Task.print (String.join (found.map fun (name, _, deriv) =>
      summaryLine width (label name) deriv))
    s.writeMetrics

/-- Saves a program; the file is there, and empty, before it is known that the program fits. -/
def save (stamp : Option String) (path : String) (p : Program Float) : Task Unit := do
  let put (bytes : Bytes) : Task Unit := do
    let w ← get
    match w.disk.write path bytes with
    | .error cause => Action.fail (.saveFile cause)
    | .ok disk => set { w with disk }
  -- The file is emptied first, so a program that does not fit leaves nothing of what was there.
  put []
  put (← Action.ofExcept ((ProgramFile.encode stamp p).mapError .file))

/-- Compiles the expression along the configured direction and saves the program. -/
def compile (s : Session) (path : String) : Task Unit := do
  let p ← s.compileAlong s.config.seeds
  if s.listing then Task.print (p.listing 0.0)
  save s.platform.stamp path p
  Task.print s!"wrote {path}: {p.instrs.length} instructions, {p.peak} peak temp elements\n"

/-- Takes a saved program in place of the expression. Its paths replace the configured ones. -/
def useProgram (s : Session) (path : String) (pathsAsked : Bool) : Task Session := do
  if s.config.runtime.eager then Action.fail .eagerProgram
  let bytes ← Action.ofExcept (((← get).disk.read path).mapError .programFile)
  let p ← Action.ofExcept ((ProgramFile.decode bytes).mapError .file)
  -- The data of all variables has to be described, whatever the program does with them.
  match p.vars.find? (fun name => !s.config.declared.contains name) with
  | some name => Action.fail (.undeclaredInput name)
  | none => pure ()
  if s.config.paths != p.paths then
    if pathsAsked then Action.fail (.pathsDisagree p.paths s.config.paths)
    s.log .warn "program path count replaces configured paths"
      [("program", toString p.paths), ("configured", toString s.config.paths)]
  s.log .debug "program loaded" [("path", path), ("instrs", toString p.instrs.length)]
  return { s with config := { s.config with paths := p.paths }, program? := some p }

end Session

end Tangent
