import Tangent.Cli.Command
import Tangent.Proofs.Session.Saved

/-!
Running a saved program is running the description it was compiled from.

The file has the program that the description is compiled to, so both runs draw the same data, run
the same program on it and print the same report. Paths that the description of the second run has
are replaced by those of the program.
-/

namespace Tangent

namespace Cli

variable {platform : Platform} {o : Options} {w w' : World} {c : Config} {s : Session}
  {level : Level}

/-- A description that is asked for was accepted, and asking for it changes nothing. -/
theorem configOf_eq_ok (described : configOf o w = .ok c w') :
    w' = w ∧ c.validate = .ok () := by
  have accepted {given : Config} {v : World} (rest : (do
        Action.ofExcept ((overrideConfig given o).validate.mapError .config)
        return overrideConfig given o : Task Config) v = .ok c w') :
      w' = v ∧ c.validate = .ok () := by
    obtain ⟨_, _, checked, answered⟩ := Action.bind_eq_ok.mp rest
    obtain ⟨valid, rfl⟩ := Action.ofExcept_eq_ok.mp checked
    obtain ⟨rfl, rfl⟩ := EStateM.Result.ok.inj answered
    exact ⟨rfl, ok_of_mapError valid⟩
  -- The demonstration is known, and a file is only looked at.
  unfold configOf at described
  split at described
  · exact accepted described
  · obtain ⟨given, w₁, found, rest⟩ := Action.bind_eq_ok.mp described
    unfold readConfig at found
    rw [Action.get_bind] at found
    obtain ⟨_, w₂, read, parsed⟩ := Action.bind_eq_ok.mp found
    obtain ⟨_, rfl⟩ := Action.ofExcept_eq_ok.mp read
    obtain ⟨_, rfl⟩ := Action.ofExcept_eq_ok.mp parsed
    exact accepted rest

/-- Without a saved program a session has its description and the data drawn for it. -/
theorem openSession_eq_ok (own : o.programPath = "") (described : configOf o w = .ok c w) :
    openSession platform o w = .ok s w' ↔ ∃ level, levelOf c = .ok level ∧
      s = ⟨platform, c, level, o.listing, o.metricsPath, none, c.inputs⟩ ∧ w' = w := by
  -- The level is the only thing that is still asked for.
  have opened : openSession platform o w = (do
      let level ← Action.ofExcept ((levelOf c).mapError .logLevel)
      return ⟨platform, c, level, o.listing, o.metricsPath, none, c.inputs⟩ : Task Session) w := by
    unfold openSession
    rw [Action.bind_ok described, own]
    rfl
  rw [opened]
  constructor
  · intro answered
    obtain ⟨level, w₁, known, rest⟩ := Action.bind_eq_ok.mp answered
    obtain ⟨leveled, rfl⟩ := Action.ofExcept_eq_ok.mp known
    obtain ⟨rfl, rfl⟩ := EStateM.Result.ok.inj rest
    exact ⟨level, ok_of_mapError leveled, rfl, rfl⟩
  · rintro ⟨level, leveled, rfl, rfl⟩
    rw [leveled]
    rfl

/-- With a saved program a session has the paths of the program, and data drawn for them. -/
theorem answers_openSession (machine : Platform) {bytes : Bytes} {p : Program Float}
    (described : configOf o w = .ok c w) (leveled : levelOf c = .ok level)
    (file : o.programPath.isEmpty = false) (compiled : c.runtime.eager = false)
    (read : w.disk.read o.programPath = .ok bytes) (decoded : ProgramFile.decode bytes = .ok p)
    (declared : ∀ name ∈ p.vars, c.declared.contains name = true)
    (agreed : o.paths.isSome = true → c.paths = p.paths) :
    let config : Config := { c with paths := p.paths }
    Task.Answers (openSession machine o) w
      ⟨machine, config, level, o.listing, o.metricsPath, some p, config.inputs⟩ "" := by
  intro config
  have known : (Action.ofExcept ((levelOf c).mapError SessionError.logLevel) : Task Level) w =
      .ok level w := by
    rw [leveled]
    rfl
  -- The file is read in the world in which the description was.
  obtain ⟨w', used, quiet⟩ := Session.answers_useProgram
    (s := ⟨machine, c, level, o.listing, o.metricsPath, none, .empty⟩) compiled read decoded
    declared agreed
  refine ⟨w', ?_, quiet⟩
  unfold openSession
  refine (Action.bind_ok described).trans ((Action.bind_ok known).trans ?_)
  simp only [file, Bool.false_eq_true, if_false]
  exact Action.bind_ok used

/-- How the command that runs a session ends on a disk, and what it leaves. -/
def ran (platform : Platform) (o : Options) (d : Disk) :
    Except (Halt SessionError) Unit × World :=
  (Command.run.perform platform o).outcome (.start d)

/-- What the command that runs a session prints, and that it succeeds without measurements. -/
theorem outcome_run {d : Disk} {found : Array Float × Array Float} {text : String}
    (opened : Task.Answers (openSession platform o) (.start d) s "")
    (compiled : s.config.runtime.eager = false)
    (answers : ∀ w, Task.Answers (s.pass s.config.seeds s.listing) w found text) :
    (ran platform o d).2.out = (World.start d).out ++ (text ++ s.report found) ∧
      (s.metricsPath = "" → (ran platform o d).1 = .ok ()) := by
  obtain ⟨w', answered, quiet⟩ := opened
  -- Opening the session prints nothing, so all of the output is that of its run.
  have same : ran platform o d = s.run.outcome w' := by
    unfold ran Action.outcome
    rw [show Command.run.perform platform o (.start d) = s.run w' from Action.bind_ok answered]
  have ended := Session.outcome_run (by rw [compiled, Bool.and_false]) answers w'
  rw [quiet, String.append_empty] at ended
  rw [same]
  exact ended

/--
Three commands: one compiles a description and saves the program, one runs the file, and one runs
the description.

The description that goes with the file may have other paths, unless there is a flag for them.
-/
structure Replays (platform : Platform) (saving loading plain : Options) (d e : Disk) (w : World)
    (c : Config) : Prop where
  described : configOf saving (.start d) = .ok c (.start d)
  own : saving.programPath = ""
  compiled : c.runtime.eager = false
  saved : Command.compile.perform platform saving (.start d) = .ok () w
  short : ∀ p text,
    Program.compile c.expression c.paths c.seeds c.runtime.maxTempElements = .ok p →
    (ProgramFile.headerOf p).write? platform.stamp = some text →
    (bytesOf text).length ≤ ProgramFile.maxHeader
  file : loading.programPath = saving.outPath
  redescribed : ∃ n, configOf loading (.start w.disk) = .ok { c with paths := n } (.start w.disk) ∧
    (n = c.paths ∨ loading.paths = none)
  same : configOf plain (.start e) = .ok c (.start e)
  unsaved : plain.programPath = ""
  listing : loading.listing = plain.listing

namespace Replays

variable {saving loading plain : Options} {d e : Disk} {w : World} {c : Config}

/-- The file that was saved has the program of the description. -/
theorem exists_saves (replays : Replays platform saving loading plain d e w c) :
    ∃ p bytes level, c.Saves platform p bytes ∧ levelOf c = .ok level ∧
      w.disk.read saving.outPath = .ok bytes ∧ saving.outPath.isEmpty = false := by
  -- The command has opened a session of the description and compiled it.
  obtain ⟨s, w₁, opened, compiled⟩ := Action.bind_eq_ok.mp replays.saved
  obtain ⟨level, leveled, rfl, _⟩ :=
    (openSession_eq_ok replays.own replays.described).mp opened
  obtain ⟨p, bytes, d₁, made, encoded, written⟩ := Session.exists_of_compile compiled
  exact ⟨p, bytes, level, ⟨made, encoded, fun text => replays.short p text made⟩, leveled,
    Disk.read_write written, Disk.not_isEmpty_of_write written⟩

/-- Both runs open sessions with the same description, data and level. -/
theorem opened (replays : Replays platform saving loading plain d e w c) (machine : Platform) :
    ∃ p bytes level, c.Saves platform p bytes ∧
      Task.Answers (openSession machine loading) (.start w.disk)
        ⟨machine, c, level, loading.listing, loading.metricsPath, some p, c.inputs⟩ "" ∧
      Task.Answers (openSession machine plain) (.start e)
        ⟨machine, c, level, plain.listing, plain.metricsPath, none, c.inputs⟩ "" := by
  obtain ⟨p, bytes, level, saves, leveled, read, nonempty⟩ := replays.exists_saves
  obtain ⟨n, redescribed, agreed⟩ := replays.redescribed
  obtain ⟨paths, vars, _⟩ := Program.length_of_compile saves.made
  -- Whatever paths the second description has, the program replaces them.
  have restored : { { c with paths := n } with paths := p.paths } = c := by rw [paths]
  -- The variables of the program are those that have seeds, and these are declared.
  have declared : ∀ name ∈ p.vars, c.declared.contains name = true := by
    intro name listed
    rw [vars] at listed
    obtain ⟨seed, found⟩ := (c.seeds.mem_names_iff name).mp listed
    rw [Config.seeds, NameMap.find?_mapValues] at found
    exact Option.isSome_iff_exists.mpr (Option.map_eq_some_iff.mp found |>.imp fun _ => And.left)
  -- A flag for the paths has to agree with the program.
  have asked : loading.paths.isSome = true → n = p.paths := by
    intro given
    rcases agreed with same | none
    · rw [same, paths]
    · rw [none] at given
      cases given
  have loaded := answers_openSession machine redescribed leveled (replays.file ▸ nonempty)
    replays.compiled (replays.file ▸ read) saves.decode declared asked
  simp only [restored] at loaded
  exact ⟨p, bytes, level, saves, loaded, _,
    (openSession_eq_ok replays.unsaved replays.same).mpr ⟨level, leveled, rfl, rfl⟩, by simp⟩

end Replays

/--
Running a saved program is running the description it was compiled from.

Both runs open a session, with the same data, on a machine that may be another one than that which
saved the program. Their passes answer the same values and derivatives, and the runs print the same.
They succeed, unless there are measurements to be written somewhere.
-/
theorem saved_program_replays {saving loading plain : Options} {d e : Disk} {w : World} {c : Config}
    (replays : Replays platform saving loading plain d e w c) (machine : Platform) :
    (∃ s s' found,
      Task.Answers (openSession machine loading) (.start w.disk) s "" ∧
      Task.Answers (openSession machine plain) (.start e) s' "" ∧
      s.data = s'.data ∧
      (∀ v, ∃ v', s.pass s.config.seeds s.listing v = .ok found v') ∧
      ∀ v, ∃ v', s'.pass s'.config.seeds s'.listing v = .ok found v') ∧
    (ran machine loading w.disk).2.out = (ran machine plain e).2.out ∧
    (loading.metricsPath = "" → (ran machine loading w.disk).1 = .ok ()) ∧
    (plain.metricsPath = "" → (ran machine plain e).1 = .ok ()) := by
  obtain ⟨p, bytes, level, saves, loaded, opened⟩ := replays.opened machine
  obtain ⟨_, valid⟩ := configOf_eq_ok replays.described
  obtain ⟨found, answers⟩ := Session.exists_answers_pass saves valid replays.compiled machine
  -- One pass runs the program of the file, and the other one compiles it again.
  have first := answers ⟨machine, c, level, loading.listing, loading.metricsPath, some p, c.inputs⟩
    rfl rfl rfl (.inl rfl) loading.listing
  have second := answers ⟨machine, c, level, plain.listing, plain.metricsPath, none, c.inputs⟩
    rfl rfl rfl (.inr ⟨rfl, saves.made⟩) plain.listing
  obtain ⟨printed, succeeds⟩ := outcome_run loaded replays.compiled first
  obtain ⟨reprinted, resucceeds⟩ := outcome_run opened replays.compiled second
  refine ⟨⟨_, _, found, loaded, opened, rfl, ?_, ?_⟩, ?_, succeeds, resucceeds⟩
  · intro v
    obtain ⟨v', answered, _⟩ := first v
    exact ⟨v', answered⟩
  · intro v
    obtain ⟨v', answered, _⟩ := second v
    exact ⟨v', answered⟩
  · -- The source of the program is the written form of the expression.
    have same : Session.report
          ⟨machine, c, level, loading.listing, loading.metricsPath, some p, c.inputs⟩ found =
        Session.report ⟨machine, c, level, plain.listing, plain.metricsPath, none, c.inputs⟩
          found := by
      simp only [Session.report, Session.source, saves.source]
      rfl
    refine printed.trans (Eq.trans ?_ reprinted.symm)
    rw [same, replays.listing]
    rfl

/-- The demonstration, on a few paths. -/
def sampleConfig : Config :=
  { Config.demo with paths := 4 }

/-- A machine with four processors and a clock. -/
def samplePlatform : Platform := ⟨4, ProgramFile.wideStamp, ProgramFile.validStamp_wide⟩

/-- Flags that save the demonstration. -/
def sampleSaving : Options :=
  { Options.initial with paths := some 4, outPath := "p" }

/-- Flags that run the file. -/
def sampleLoading : Options :=
  { Options.initial with programPath := "p" }

/-- Flags that run the demonstration. -/
def samplePlain : Options :=
  { Options.initial with paths := some 4 }

/-- The demonstration is compiled to a program that fits into a file. -/
theorem exists_saves_sample : ∃ p bytes, sampleConfig.Saves samplePlatform p bytes := by
  -- Compiling, encoding and measuring the header make one computation, which is done once.
  have fits : ((Program.compile sampleConfig.expression sampleConfig.paths sampleConfig.seeds
      sampleConfig.runtime.maxTempElements).toOption.bind fun p =>
        (ProgramFile.encode samplePlatform.stamp p).toOption.map fun _ =>
          ((ProgramFile.headerOf p).write? samplePlatform.stamp).all fun text =>
            decide ((bytesOf text).length ≤ ProgramFile.maxHeader)) = some true := by
    decide +kernel
  obtain ⟨p, made, rest⟩ := Option.bind_eq_some_iff.mp fits
  obtain ⟨bytes, saved, short⟩ := Option.map_eq_some_iff.mp rest
  refine ⟨p, bytes, ok_of_toOption made, ok_of_toOption saved, ?_⟩
  intro text written
  rw [written] at short
  exact of_decide_eq_true short

/-- The demonstration is saved, and run from the file although it asks for more paths by default. -/
theorem exists_replays_sample :
    ∃ w, Replays samplePlatform sampleSaving sampleLoading samplePlain .empty .empty w
      sampleConfig := by
  obtain ⟨p, bytes, saves⟩ := exists_saves_sample
  have opened : openSession samplePlatform sampleSaving (.start .empty) =
      .ok ⟨samplePlatform, sampleConfig, .info, false, "", none, sampleConfig.inputs⟩
        (.start .empty) :=
    (openSession_eq_ok (c := sampleConfig) rfl rfl).mpr ⟨.info, rfl, rfl, rfl⟩
  -- The file is created first and then written.
  have emptied : Disk.write .empty "p" [] = .ok (.insert .empty "p" []) := by cbv
  have written : Disk.write (.insert .empty "p" []) "p" bytes = .ok (.insert .empty "p" bytes) := by
    cbv
  obtain ⟨w, compiled⟩ := Session.exists_compile
    (s := ⟨samplePlatform, sampleConfig, .info, false, "", none, sampleConfig.inputs⟩)
    (w := .start .empty) saves emptied written
  refine ⟨w, rfl, rfl, rfl, (Action.bind_ok opened).trans compiled, ?_, rfl,
    ⟨10000, rfl, .inr rfl⟩, rfl, rfl, rfl⟩
  intro q text made
  obtain rfl := Except.ok.inj (saves.made.symm.trans made)
  exact saves.short text

/-- A machine with one processor runs the file as it runs the demonstration. -/
theorem saved_program_replays_demo : ∃ w : World,
    (ran .plain sampleLoading w.disk).1 = .ok () ∧ (ran .plain samplePlain .empty).1 = .ok () ∧
      (ran .plain sampleLoading w.disk).2.out = (ran .plain samplePlain .empty).2.out := by
  obtain ⟨w, replays⟩ := exists_replays_sample
  -- The flags ask for no measurements, so both runs succeed.
  obtain ⟨_, printed, succeeds, resucceeds⟩ := saved_program_replays replays .plain
  exact ⟨w, succeeds rfl, resucceeds rfl, printed⟩

end Cli

end Tangent
