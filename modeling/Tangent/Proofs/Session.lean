import Tangent.Proofs.Config.Inputs
import Tangent.Proofs.File.Decoded
import Tangent.Proofs.Task
import Tangent.Proofs.Walk.PerPath

/-!
Running a program that was read from a file.

A session that takes a saved program over has it checked and all its variables declared, draws data
for all of its paths, and runs it in memory of its own.
-/

namespace Tangent

namespace Session

/-- Data that is put into memory is found under its name. -/
theorem exists_view_adoptAll (h : Host Float) {entries : List (String × Array Float)}
    {name : String} (listed : name ∈ entries.map (·.1)) :
    ∃ view data, (adoptAll h entries).1.find? name = some view ∧ (name, data) ∈ entries ∧
      view.length = data.size := by
  induction entries generalizing h with
  | nil => simp at listed
  | cons entry rest ih =>
    obtain ⟨first, data⟩ := entry
    simp only [adoptAll]
    -- The first entry is bound last, so it is found under its name whatever follows.
    by_cases same : first = name
    · subst same
      exact ⟨_, data, by rw [NameMap.find?_insert, if_pos rfl], by simp, rfl⟩
    · obtain ⟨view, own, found, among, length⟩ := ih (h.adopt data).2
        ((List.mem_cons.mp listed).resolve_left (Ne.symm same))
      exact ⟨view, own, by rw [NameMap.find?_insert, if_neg same]; exact found, by simp [among],
        length⟩

/-- Memory keeps its limit when data is put into it. -/
theorem limit_adoptAll (h : Host Float) (entries : List (String × Array Float)) :
    (adoptAll h entries).2.limit = h.limit := by
  -- Blocks are added one after the other.
  induction entries generalizing h with
  | nil => rfl
  | cons entry rest ih => exact ih (h.adopt entry.2).2

/-- A session that has taken a program over, with all of its variables declared. -/
structure Loaded (s : Session) (p : Program Float) : Prop where
  eager : s.config.runtime.eager = false
  program : s.program? = some p
  paths : s.config.paths = p.paths
  declared : ∀ name ∈ p.vars, s.config.declared.contains name = true

/-- The memory of a pass covers a program that was taken over, and has the configured limit. -/
theorem Loaded.covers {s : Session} {p : Program Float} (loaded : s.Loaded p)
    (positive : 0 < p.paths) (drawn : s.data = s.config.inputs) :
    s.load.1.Covers p ∧ s.load.2.limit = s.config.runtime.maxTempElements := by
  have count : (s.config.paths.toNatClampNeg : Int) = p.paths.toInt := by
    rw [Int64.lt_iff_toInt_lt, Int64.toInt_zero] at positive
    rw [loaded.paths, Int64.toNatClampNeg]
    omega
  -- Registers and data are all made for the paths of the configuration.
  refine ⟨⟨?_, ?_, fun name listed => ?_⟩, limit_adoptAll _ _⟩
  · simp [load, Host.adopt, Store.push, count]
  · simp [load, Host.adopt, Store.push, count]
  · obtain ⟨data, found, size⟩ := Config.exists_input (loaded.declared name listed)
    rw [← drawn] at found
    have named : name ∈ s.data.entries.map (·.1) := (s.data.mem_names_iff name).mpr ⟨data, found⟩
    obtain ⟨view, own, known, among, length⟩ := exists_view_adoptAll
      ((s.host.adopt (Array.replicate s.config.paths.toNatClampNeg 0.0)).2.adopt
        (Array.replicate s.config.paths.toNatClampNeg 0.0)).2 named
    have same := (s.data.mem_entries_iff name own).mp among
    rw [found, Option.some.injEq] at same
    refine ⟨view, known, ?_⟩
    rw [length, ← same, size, count]

/-- A session that takes a program over has read it from a file. -/
theorem loaded_of_useProgram {s s' : Session} {path : String} {asked : Bool} {w w' : World}
    (used : s.useProgram path asked w = .ok s' w') :
    ∃ bytes p, w.disk.read path = .ok bytes ∧ ProgramFile.decode bytes = .ok p ∧ s'.Loaded p := by
  unfold useProgram at used
  dsimp only at used
  split at used
  · simp at used
  · rename_i eager
    rw [Action.get_bind] at used
    obtain ⟨bytes, _, read, used⟩ := Action.bind_eq_ok.mp used
    obtain ⟨p, _, decoded, used⟩ := Action.bind_eq_ok.mp used
    -- A variable that is not declared would have been complained about.
    cases undeclared : p.vars.find? (fun name => !s.config.declared.contains name) with
    | some name => simp [undeclared] at used
    | none =>
      simp only [undeclared] at used
      refine ⟨bytes, p, ok_of_mapError (Action.ofExcept_eq_ok.mp read).1,
        ok_of_mapError (Action.ofExcept_eq_ok.mp decoded).1, ?_⟩
      -- Whatever is logged on the way, the session ends up with the program and its paths.
      have taken : s' =
          { s with config := { s.config with paths := p.paths }, program? := some p } := by
        split at used
        · split at used
          · simp at used
          · obtain ⟨_, _, _, used⟩ := Action.bind_eq_ok.mp used
            obtain ⟨_, _, _, used⟩ := Action.bind_eq_ok.mp used
            exact (EStateM.Result.ok.inj used).1.symm
        · obtain ⟨_, _, _, used⟩ := Action.bind_eq_ok.mp used
          exact (EStateM.Result.ok.inj used).1.symm
      subst taken
      refine ⟨by simpa using eager, rfl, rfl, fun name listed => ?_⟩
      simpa using List.find?_eq_none.mp undeclared name listed

/--
A program that can be read, and whose variables are declared, is taken over.

Paths that were asked for have to be those of the program.
-/
theorem answers_useProgram {s : Session} {path : String} {asked : Bool} {w : World} {bytes : Bytes}
    {p : Program Float} (compiled : s.config.runtime.eager = false)
    (read : w.disk.read path = .ok bytes) (decoded : ProgramFile.decode bytes = .ok p)
    (declared : ∀ name ∈ p.vars, s.config.declared.contains name = true)
    (agreed : asked = true → s.config.paths = p.paths) :
    Task.Answers (s.useProgram path asked) w
      { s with config := { s.config with paths := p.paths }, program? := some p } "" := by
  have all : p.vars.find? (fun name => !s.config.declared.contains name) = none :=
    List.find?_eq_none.mpr (fun name listed => by simp [declared name listed])
  have found : (w.disk.read path).mapError SessionError.programFile = .ok bytes := by
    rw [read]
    rfl
  have taken : (ProgramFile.decode bytes).mapError SessionError.file = .ok p := by
    rw [decoded]
    rfl
  have told (w : World) : Task.Answers
      (do s.log .debug "program loaded" [("path", path), ("instrs", toString p.instrs.length)]
          return ({ s with config := { s.config with paths := p.paths }, program? := some p } :
            Session)) w _ "" :=
    (s.answers_log _ _ _ w).andThen (Task.answers_pure _)
  unfold useProgram
  simp only [compiled, Bool.false_eq_true, if_false]
  apply Task.answers_get
  apply (Task.answers_ofExcept found w).andThen
  intro w
  apply (Task.answers_ofExcept taken w).andThen
  intro w
  simp only [all]
  -- Paths that differ are replaced, which is worth a warning, if they were not asked for.
  split
  · rename_i other
    cases asked with
    | true => exact absurd (agreed rfl) (by simpa using other)
    | false => exact (s.answers_log _ _ _ w).andThen told
  · exact told w

/-- A program that can be read, and whose variables are declared, replaces the expression. -/
theorem exists_useProgram {s : Session} {path : String} {w : World} {bytes : Bytes}
    {p : Program Float} (compiled : s.config.runtime.eager = false)
    (read : w.disk.read path = .ok bytes) (decoded : ProgramFile.decode bytes = .ok p)
    (declared : ∀ name ∈ p.vars, s.config.declared.contains name = true) :
    ∃ w', s.useProgram path false w =
      .ok { s with config := { s.config with paths := p.paths }, program? := some p } w' := by
  -- No agreement on paths is asked for.
  have agreed : false = true → s.config.paths = p.paths := by simp
  obtain ⟨w', used, _⟩ := answers_useProgram compiled read decoded declared agreed
  exact ⟨w', used⟩

/-- A part that answers hands its measurements on. -/
theorem measured_ok {σ ε τ : Type} {wrap : ε → SessionError} {start : Meter → σ} {meter : σ → Meter}
    {body : Action σ ε τ} {w : World} {a : τ} {t : σ} (ran : body (start w.meter) = .ok a t) :
    Task.measured wrap start meter body w = .ok (.ok a, t) { w with meter := meter t } := by
  -- The part starts from the measurements so far, and its own replace them.
  unfold Task.measured Action.outcome
  rw [Action.get_bind, ran]
  rfl

/-- A part that stops hands its measurements on, too. -/
theorem measured_error {σ ε τ : Type} {wrap : ε → SessionError} {start : Meter → σ}
    {meter : σ → Meter} {body : Action σ ε τ} {w : World} {halt : Halt ε} {t : σ}
    (stopped : body (start w.meter) = .error halt t) :
    Task.measured wrap start meter body w =
      .ok (.error (halt.map wrap), t) { w with meter := meter t } := by
  -- The error is an answer here, so that measuring can go on.
  unfold Task.measured Action.outcome
  rw [Action.get_bind, stopped]
  rfl

/-- Once its frame is there, a program is run and the run is reported. -/
theorem exists_passProgram_eq {s : Session} {p : Program Float} {f : Frame}
    (prepared : Machine.prepare p s.load.1 = .ok f) (w : World) :
    ∃ w₁, ∀ {ended m w₂},
      Task.measured .run (fun meter => ⟨s.load.2, meter, none, []⟩) Machine.meter
        (Machine.runIn Host.kernels p f) w₁ = .ok (ended, m) w₂ →
      ∃ w₃, s.passProgram p w =
        (do Task.ofOutcome ended; return registers s.load.1 m.host : Task _) w₃ := by
  -- Before the run and after it there are only steps that answer.
  have linked : (Action.ofExcept (Host.symbols.link.mapError SessionError.link) :
      Task (MachineKernels Float)) w = .ok Host.kernels w := by
    rw [Host.link_symbols]
    rfl
  have framed : (Action.ofExcept ((Machine.prepare p s.load.1).mapError SessionError.run) :
      Task Frame) w = .ok f w := by
    rw [prepared]
    rfl
  obtain ⟨w₁, logged, _⟩ := s.answers_log .debug "program start"
    [("paths", toString p.paths), ("instrs", toString p.instrs.length),
      ("temp_peak", toString p.peak)] w
  refine ⟨w₁, fun {ended m w₂} ran => ?_⟩
  obtain ⟨w₃, relogged, _⟩ :=
    s.answers_log .debug "program finished" [("error", endText ended)] w₂
  exact ⟨w₃, (Action.bind_ok linked).trans ((Action.bind_ok framed).trans
    ((Action.bind_ok logged).trans ((Action.bind_ok ran).trans (Action.bind_ok relogged))))⟩

/-- A safe program that was taken over runs, unless memory with a limit refuses a block. -/
theorem Loaded.passProgram {s : Session} {p : Program Float} (loaded : s.Loaded p)
    (drawn : s.data = s.config.inputs) (safe : p.validate = .ok ())
    (small : ∀ i ∈ p.instrs, i.Small) (w : World) :
    (∃ found w', s.passProgram p w = .ok found w') ∨
    ∃ pc instr cause w',
      s.passProgram p w = .error (.error (.run (.step pc instr (.alloc cause)))) w' ∧
      0 < s.config.runtime.maxTempElements := by
  -- The run is that of a safe program on memory that covers it.
  obtain ⟨covers, limit⟩ := loaded.covers (Program.checkInstrs_of_validate safe).1 drawn
  obtain ⟨f, prepared, covered⟩ := covers.prepare safe
  obtain ⟨w₁, reported⟩ := exists_passProgram_eq prepared w
  rcases Machine.runIn_safe covered safe small (m := ⟨s.load.2, w₁.meter, none, []⟩) rfl with
    ⟨m, ran⟩ | ⟨cause, m, stopped, excused⟩
  · obtain ⟨w₂, same⟩ := reported (measured_ok ran)
    rw [same]
    exact .inl ⟨_, w₂, rfl⟩
  · obtain ⟨w₂, same⟩ := reported (measured_error stopped)
    rw [same]
    -- Nobody can call the run off, so there is one excuse left.
    cases excused with
    | canceled pc impatient => exact absurd rfl impatient
    | refused pc instr cause limited => exact .inr ⟨pc, instr, cause, w₂, rfl, limit ▸ limited⟩

/-- A pass with a program that was taken over is a run of it, after its listing. -/
theorem Loaded.exists_pass_eq {s : Session} {p : Program Float} (loaded : s.Loaded p)
    (seeds : NameMap Float) (listing : Bool) (w : World) :
    ∃ w', s.pass seeds listing w = s.passProgram p w' := by
  -- There is a program already, so nothing is compiled.
  unfold pass
  simp only [loaded.eager, loaded.program, Bool.false_eq_true, if_false, pure_bind]
  cases listing with
  | false => exact ⟨w, rfl⟩
  | true => exact ⟨{ w with out := w.out ++ p.listing 0.0 }, rfl⟩

end Session

/-- A temporary whose second half is cleared and copied to the values of two paths. -/
def sampleFile : Bytes :=
  ProgramFile.sealed (ProgramFile.layout 0 (bytesOf "\x7b\"paths\":2\x7d")
    [⟨0, 3, 0, 0, 0, 0, 0, 0, 4⟩, ⟨3, 3, 0, 0, 2, 0, 0, 0, 2⟩, ⟨4, 0, 3, 0, 0, 0, 2, 0, 2⟩,
      ⟨1, 3, 0, 0, 0, 0, 0, 0, 0⟩])

/-- The file holds a program of four instructions without variables. -/
theorem exists_decode_sampleFile :
    ∃ p, ProgramFile.decode sampleFile = .ok p ∧ p.paths = 2 ∧ p.vars = [] ∧
      p.instrs.length = 4 := by
  -- Programs of floating-point numbers cannot be compared, so only these parts are evaluated.
  have read : (ProgramFile.decode sampleFile).toOption.map
      (fun p => (p.paths, p.vars, p.instrs.length)) = some (2, [], 4) := by
    rw [sampleFile, ProgramFile.decode_sealed (by decide +kernel) (by decide +kernel)]
    decide +kernel
  obtain ⟨p, decoded, parts⟩ := Option.map_eq_some_iff.mp read
  rw [Prod.mk.injEq, Prod.mk.injEq] at parts
  exact ⟨p, ok_of_toOption decoded, parts⟩

/-- A disk with that file. -/
def sampleDisk : Disk := .insert .empty "p" sampleFile

/-- The only file of a disk is read by its name. -/
theorem read_single (bytes : Bytes) : Disk.read (.insert .empty "p" bytes) "p" = .ok bytes := by
  cbv

/-- A session for the demonstration. -/
def sampleSession : Session := ⟨.plain, .demo, .info, false, "", none, .empty⟩

/--
A program that was read from a file is always safe to run.

On memory that covers it, and with kernels that cut ranges into proper chunks, a run ends early only
if it is called off, or if there is a limit and a block is refused; without either it goes through.
A session that has taken the file over, and drawn data for it, can only fail for a refused block.
-/
theorem decoded_program_safe {bytes : Bytes} {p : Program Float}
    (decoded : ProgramFile.decode bytes = .ok p) :
    (∀ kernels memory (h : Host Float) patience, h.chunking.Proper Host.room →
      Host.symbols.link = .ok kernels → memory.Covers p →
      ((∃ m, Machine.run kernels p memory (Machine.new h patience) = .ok () m) ∨
        ∃ cause m, Machine.run kernels p memory (Machine.new h patience) = .error (.error cause) m ∧
          cause.Excused h.limit patience) ∧
      (h.limit ≤ 0 → patience = none →
        ∃ m, Machine.run kernels p memory (Machine.new h patience) = .ok () m)) ∧
    ∀ (s s' : Session) path asked (w w' : World),
      w.disk.read path = .ok bytes → s.useProgram path asked w = .ok s' w' →
      ∀ seeds listing v,
        (∃ found v', ({ s' with data := s'.config.inputs } : Session).pass seeds listing v =
          .ok found v') ∨
        ∃ pc instr cause v', ({ s' with data := s'.config.inputs } : Session).pass seeds listing v =
            .error (.error (.run (.step pc instr (.alloc cause)))) v' ∧
          0 < s'.config.runtime.maxTempElements := by
  obtain ⟨safe, small⟩ := ProgramFile.small_of_decode decoded
  refine ⟨fun kernels memory h patience _ linked covers => ?_,
    fun s s' path asked w w' read used seeds listing v => ?_⟩
  · obtain rfl := Except.ok.inj (Host.link_symbols.symm.trans linked)
    have ends := Machine.run_safe covers safe small (m := Machine.new h patience) rfl
    refine ⟨ends, fun unlimited patient => ?_⟩
    -- Without a limit and without an end to patience there is no excuse.
    rcases ends with done | ⟨cause, m, _, excused⟩
    · exact done
    · cases excused with
      | refused pc instr cause limited => exact absurd limited (Int64.not_lt.mpr unlimited)
      | canceled pc impatient => exact absurd patient impatient
  · -- The file that was taken over is the one that was decoded.
    obtain ⟨found, q, reread, redecoded, loaded⟩ := Session.loaded_of_useProgram used
    obtain rfl := Except.ok.inj (read.symm.trans reread)
    obtain rfl := Except.ok.inj (decoded.symm.trans redecoded)
    have drawn : Session.Loaded { s' with data := s'.config.inputs } p :=
      ⟨loaded.eager, loaded.program, loaded.paths, loaded.declared⟩
    obtain ⟨v₁, same⟩ := drawn.exists_pass_eq seeds listing v
    rw [same]
    exact drawn.passProgram rfl safe small v₁

/-- A file of four instructions runs, on registers as well as in a session. -/
theorem decoded_program_safe_sample :
    ∃ p, ProgramFile.decode sampleFile = .ok p ∧ p.instrs.length = 4 ∧
      (∃ m, Machine.run Host.kernels p ⟨⟨0, 0, 2⟩, ⟨1, 0, 3⟩, .empty⟩
        (Machine.new Walk.sampleHost none) = .ok () m) ∧
      ∃ s w, sampleSession.useProgram "p" false (.start sampleDisk) = .ok s w ∧
        ∃ found v, ({ s with data := s.config.inputs } : Session).pass .empty true w =
          .ok found v := by
  -- The program has no variables, so registers of two elements cover it.
  obtain ⟨p, decoded, paths, vars, length⟩ := exists_decode_sampleFile
  obtain ⟨runs, passes⟩ := decoded_program_safe decoded
  have read : (World.start sampleDisk).disk.read "p" = .ok sampleFile :=
    read_single sampleFile
  obtain ⟨w, used⟩ :=
    Session.exists_useProgram (s := sampleSession) rfl read decoded (by simp [vars])
  have covers : Memory.Covers ⟨⟨0, 0, 2⟩, ⟨1, 0, 3⟩, .empty⟩ p :=
    ⟨by rw [paths]; decide, by rw [paths]; decide, by simp [vars]⟩
  have through := runs Host.kernels _ Walk.sampleHost none (by decide) Host.link_symbols covers
  refine ⟨p, decoded, length, through.2 (by decide) rfl, _, w, used, ?_⟩
  rcases passes sampleSession _ "p" false (.start sampleDisk) w read used .empty true w with
    ok | ⟨_, _, _, _, _, limited⟩
  · exact ok
  · exact absurd limited Int64.lt_irrefl

end Tangent
