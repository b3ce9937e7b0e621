import Tangent.Proofs.NameMap
import Tangent.Proofs.Program.Recording

/-! A compilation is a recorded walk, with variables numbered in the order of their names. -/

namespace Tangent.Program

variable {α : Type}

/-- Variables are declared in order, and each is bound to the operand of its position. -/
theorem declareAll_ok {entries : List (String × α)}
    (sorted : entries.Pairwise (fun a b => a.1 < b.1)) (c : Context α Ref) (r : Recorder α) :
    ∃ bindings, declareAll c entries r =
        .ok { c with bindings } { r with declared := entries.reverse ++ r.declared } ∧
      (∀ name, name ∉ entries.map (·.1) → bindings.find? name = c.bindings.find? name) ∧
      ∀ i name seed, entries[i]? = some (name, seed) →
        bindings.find? name = some ⟨.var (Int64.ofNat (r.declared.length + i)), seed⟩ := by
  -- The first variable takes the next number, and the others never bind its name again.
  induction entries generalizing c r with
  | nil => exact ⟨c.bindings, rfl, fun _ _ => rfl, fun i => by simp⟩
  | cons entry rest ih =>
    obtain ⟨above, tail⟩ := List.pairwise_cons.mp sorted
    have first : (Recorder.declare entry.1 entry.2 : Action (Recorder α) CompileError Ref) r =
        .ok (.var (Int64.ofNat r.declared.length))
          { r with declared := (entry.1, entry.2) :: r.declared } := rfl
    obtain ⟨bindings, declared, others, known⟩ := ih tail
      (c.bind entry.1 (.var (Int64.ofNat r.declared.length)) entry.2)
      { r with declared := (entry.1, entry.2) :: r.declared }
    -- Names ascend, so the others are all different.
    have new : entry.1 ∉ rest.map (·.1) := by
      intro listed
      obtain ⟨other, among, same⟩ := List.mem_map.mp listed
      exact String.lt_irrefl _ (same ▸ above other among)
    refine ⟨bindings, ?_, fun name absent => ?_, fun i name seed listed => ?_⟩
    · rw [declareAll, Action.bind_ok first, declared]
      simp [Context.bind]
    · rw [List.map_cons, List.mem_cons, not_or] at absent
      rw [others name absent.2, Context.bind, NameMap.find?_insert, if_neg (Ne.symm absent.1)]
    · -- The first variable keeps its binding, the others are counted on from it.
      cases i with
      | zero =>
        rw [List.getElem?_cons_zero, Option.some.injEq] at listed
        subst listed
        rw [others _ new, Context.bind, NameMap.find?_insert, if_pos rfl]
        rfl
      | succ i =>
        rw [known i name seed (by simpa using listed)]
        simp [Nat.add_assoc, Nat.add_comm 1]

/-- The operands of the variables with the given seeds. -/
structure Declares (c : Context α Ref) (paths : Int64) (seeds : NameMap α) : Prop where
  paths : c.paths = paths
  value : c.value = .value
  deriv : c.deriv = .deriv
  unknown : ∀ name, seeds.find? name = none → c.bindings.find? name = none
  known : ∀ name seed, seeds.find? name = some seed → ∃ i, seeds.names[i]? = some name ∧
    i < seeds.entries.length ∧ c.bindings.find? name = some ⟨.var (Int64.ofNat i), seed⟩

/-- Names alone say which operands their variables have. -/
theorem Declares.unique {c c' : Context α Ref} {paths : Int64} {seeds : NameMap α}
    (declares : Declares c paths seeds) (declares' : Declares c' paths seeds) : c = c' := by
  have bindings : c.bindings = c'.bindings := by
    refine NameMap.eq_of_find? (fun name => ?_)
    cases found : seeds.find? name with
    | none => rw [declares.unknown name found, declares'.unknown name found]
    | some seed =>
      obtain ⟨i, listed, inside, operand⟩ := declares.known name seed found
      obtain ⟨j, listed', _, operand'⟩ := declares'.known name seed found
      -- A name has one position.
      have same : i = j := (List.getElem?_inj (by simpa [NameMap.names] using inside)
        seeds.nodup_names).mp (listed.trans listed'.symm)
      rw [operand, operand', same]
  have paths := declares.paths.trans declares'.paths.symm
  have value := declares.value.trans declares'.value.symm
  have deriv := declares.deriv.trans declares'.deriv.symm
  cases c
  cases c'
  simp_all

/-- The recorder of a program whose variables are declared. -/
def declared (paths limit : Int64) (seeds : NameMap α) : Recorder α :=
  { Recorder.new paths limit with declared := seeds.entries.reverse }

variable [Elem α] {root : Expr α} {paths limit : Int64} {seeds : NameMap α}

/-- What is recorded is a walk with declared variables. -/
theorem exists_record_eq (root : Expr α) (paths limit : Int64) (seeds : NameMap α) :
    ∃ c : Context α Ref, Declares c paths seeds ∧
      record root paths seeds (Recorder.new paths limit) =
        (Walk.generate Recorder.backend c root).adapt .walk (declared paths limit seeds) := by
  -- All declarations come before the walk, which is then performed on what they leave.
  obtain ⟨bindings, ran, others, known⟩ := declareAll_ok seeds.sorted
    (Context.new paths .value .deriv) (Recorder.new paths limit)
  refine ⟨⟨paths, .value, .deriv, bindings⟩, ⟨rfl, rfl, rfl, fun name absent => ?_, ?_⟩, ?_⟩
  · refine others name (fun listed => ?_)
    obtain ⟨value, found⟩ := (seeds.mem_names_iff name).mp listed
    rw [absent] at found
    exact absurd found (by simp)
  · -- A name has the position of its entry.
    intro name seed found
    obtain ⟨i, inside, listed⟩ := List.mem_iff_getElem.mp ((seeds.mem_entries_iff _ _).mpr found)
    refine ⟨i, by simp [NameMap.names, inside, listed], inside, ?_⟩
    have := known i name seed (by rw [List.getElem?_eq_getElem inside, listed])
    simpa [Recorder.new] using this
  · refine (Action.bind_ok ran).trans ?_
    simp [declared, Recorder.new]
    rfl

variable [Written α]

/-- A walk that does not get through ends the compilation. -/
theorem compile_halt {c : Context α Ref} {halt : Halt WalkError} {r : Recorder α}
    (recorded : record root paths seeds (Recorder.new paths limit) =
      (Walk.generate Recorder.backend c root).adapt .walk (declared paths limit seeds))
    (stopped : Walk.generate Recorder.backend c root (declared paths limit seeds) =
      .error halt r) :
    compile root paths seeds limit = .error (halt.map .walk) := by
  -- The outcome of the recording decides, and it is that of the walk.
  have ended : (record root paths seeds).outcome (Recorder.new paths limit) =
      (.error (halt.map .walk), r) := by
    rw [Action.outcome, recorded, Action.adapt_error stopped]
  rw [compile, ended]
  rfl

/-- A walk that stops is the error of the compilation. -/
theorem compile_error {c : Context α Ref} {cause : WalkError} {r : Recorder α}
    (recorded : record root paths seeds (Recorder.new paths limit) =
      (Walk.generate Recorder.backend c root).adapt .walk (declared paths limit seeds))
    (stopped : Walk.generate Recorder.backend c root (declared paths limit seeds) =
      .error (.error cause) r) :
    compile root paths seeds limit = .error (.error (.walk cause)) :=
  -- An error is one of the ways in which a walk halts.
  compile_halt recorded stopped

/-- A compilation with an error of the walk is a recording that stopped with it. -/
theorem exists_of_compile_error {cause : WalkError}
    (failed : compile root paths seeds limit = .error (.error (.walk cause))) :
    ∃ (c : Context α Ref) (r : Recorder α), Declares c paths seeds ∧
      Walk.generate Recorder.backend c root (declared paths limit seeds) =
        .error (.error cause) r := by
  obtain ⟨c, declares, recorded⟩ := exists_record_eq root paths limit seeds
  cases walked : Walk.generate Recorder.backend c root (declared paths limit seeds) with
  | error halt r =>
    rw [compile_halt recorded walked] at failed
    cases halt with
    | error other =>
      obtain rfl : other = cause := by simpa [Halt.map] using failed
      exact ⟨c, r, declares, walked⟩
    | fault misuse => simp [Halt.map] at failed
  | ok _ r =>
    -- What is complained about after the walk is not an error of the walk.
    rw [compile, Action.outcome, recorded, Action.adapt_ok walked] at failed
    simp only [Bind.bind, Except.bind, Except.mapError] at failed
    split at failed
    · cases build : r.build <;> simp_all
    · cases written : root.write <;> simp_all [Pure.pure, Except.pure]

/-- A list is what is in it, even if it is absent when it is empty. -/
theorem getD_listed {ν : Type} (items : List ν) : (Recorder.listed items).getD [] = items := by
  -- Only the empty list is left out.
  cases items <;> rfl

/-- A walk that gets through and gives everything back is a program with its instructions. -/
theorem compile_ok {c : Context α Ref} {r : Recorder α} {text : String}
    (recorded : record root paths seeds (Recorder.new paths limit) =
      (Walk.generate Recorder.backend c root).adapt .walk (declared paths limit seeds))
    (walked : Walk.generate Recorder.backend c root (declared paths limit seeds) = .ok () r)
    (closed : r.live = []) (written : root.write = .ok text) :
    ∃ p : Program α, compile root paths seeds limit = .ok p ∧ p.paths = r.paths ∧
      p.vars = r.declared.reverse.map (·.1) ∧ p.instrs = r.recorded.reverse ∧
      p.peak = r.peakElements := by
  have ended : (record root paths seeds).outcome (Recorder.new paths limit) = (.ok (), r) := by
    rw [Action.outcome, recorded, Action.adapt_ok walked]
  refine ⟨{ paths := r.paths
            vars? := Recorder.listed (r.declared.reverse.map (·.1))
            seeds? := Recorder.listed (r.declared.reverse.map (·.2))
            source := text
            instrs := r.recorded.reverse
            peak := r.peakElements }, ?_, rfl, getD_listed _, rfl, rfl⟩
  -- With nothing live and a tree that can be written, the recorder is closed without a complaint.
  rw [compile, ended]
  simp only [Recorder.build, closed, List.isEmpty_nil, if_true, written]
  rfl

/-- A program that was compiled is the recording of a walk that got through. -/
theorem exists_of_compile {p : Program α} (compiled : compile root paths seeds limit = .ok p) :
    ∃ (c : Context α Ref) (r : Recorder α) (text : String), Declares c paths seeds ∧
      Walk.generate Recorder.backend c root (declared paths limit seeds) = .ok () r ∧
      root.write = .ok text ∧
      p = { paths := r.paths
            vars? := Recorder.listed (r.declared.reverse.map (·.1))
            seeds? := Recorder.listed (r.declared.reverse.map (·.2))
            source := text
            instrs := r.recorded.reverse
            peak := r.peakElements } := by
  obtain ⟨c, declares, recorded⟩ := exists_record_eq root paths limit seeds
  cases walked : Walk.generate Recorder.backend c root (declared paths limit seeds) with
  | error halt r =>
    -- A walk that stops is passed on as it is.
    rw [compile, Action.outcome, recorded, Action.adapt_error walked] at compiled
    cases compiled
  | ok _ r =>
    rw [compile, Action.outcome, recorded, Action.adapt_ok walked] at compiled
    obtain ⟨_, _, compiled⟩ := ok_of_bind compiled
    obtain ⟨built, closed, compiled⟩ := ok_of_bind compiled
    obtain ⟨text, written, compiled⟩ := ok_of_bind compiled
    refine ⟨c, r, text, declares, walked, ok_of_mapError written, ?_⟩
    -- The recorder was closed, so what was built is its recording.
    have open' := ok_of_mapError closed
    unfold Recorder.build at open'
    split at open'
    · rw [← Except.ok.inj compiled, ← Except.ok.inj open']
    · cases open'

end Tangent.Program
