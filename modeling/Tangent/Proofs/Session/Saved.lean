import Tangent.Proofs.Disk
import Tangent.Proofs.File.RoundTrip
import Tangent.Proofs.Session.Affordable

/-!
Passes along the seeds for which a program was saved.

Files take short programs with few paths, so a description whose program was saved asks for no more
than memory can lend, and its temporaries fit. A session that compiles the description and one that
takes the file over then run the same program in the same memory.
-/

namespace Tangent

/-- Every stretch on loan takes an instruction. -/
theorem Expr.width_le_steps {α : Type} (e : Expr α) : e.width ≤ e.steps := by
  -- The widest operand has steps enough, and the operation has at least as many as stretches.
  have all {operands : List (Expr α)} (each : ∀ e ∈ operands, e.width ≤ e.steps) :
      widthOf operands ≤ stepsOf operands := by
    induction operands with
    | nil => exact Nat.le_refl 0
    | cons e rest ih =>
      rw [List.forall_mem_cons] at each
      have later := ih each.2
      simp only [widthOf, stepsOf]
      omega
  induction e using Expr.induction with
  | add operands ih =>
    have := all ih
    simp only [width, steps]
    omega
  | mul operands ih =>
    have := all ih
    simp only [width, steps]
    omega
  | exp exponent ih => exact Nat.le_add_right_of_le ih
  | _ => exact Nat.zero_le _

/-- The file of the program of a description, with a header that is not too long for a file. -/
structure Config.Saves (c : Config) (platform : Platform) (p : Program Float) (bytes : Bytes) :
    Prop where
  made : Program.compile c.expression c.paths c.seeds c.runtime.maxTempElements = .ok p
  saved : ProgramFile.encode platform.stamp p = .ok bytes
  short : ∀ text, (ProgramFile.headerOf p).write? platform.stamp = some text →
    (bytesOf text).length ≤ ProgramFile.maxHeader

namespace Config.Saves

variable {c : Config} {platform : Platform} {p : Program Float} {bytes : Bytes}

/-- The header has a byte for every variable. -/
theorem named (saves : c.Saves platform p bytes) : p.vars.length ≤ ProgramFile.maxHeader := by
  -- The text of the header lists the variables, and it is short.
  obtain ⟨_, _, _, text, _, written, _⟩ := ProgramFile.exists_of_encode saves.saved
  exact (Header.vars_le_of_write? written).trans (saves.short text written)

/-- The program has the written form of the expression for its source. -/
theorem source (saves : c.Saves platform p bytes) : c.expression.write = .ok p.source := by
  -- The compiler writes the expression before it records anything.
  obtain ⟨_, _, text, _, _, written, rfl⟩ := Program.exists_of_compile saves.made
  exact written

/-- The file is read as the program. -/
theorem decode (saves : c.Saves platform p bytes) : ProgramFile.decode bytes = .ok p := by
  obtain ⟨_, limited, few, text, _, written, _⟩ := ProgramFile.exists_of_encode saves.saved
  obtain ⟨_, ofVars, ofSeeds, _⟩ := Program.length_of_compile saves.made
  -- Names and seeds come from the same entries.
  have seeded : p.seeds.length = p.vars.length := by
    rw [ofVars, ofSeeds, NameMap.names, List.length_map, List.length_map]
  exact ProgramFile.decode_of_kept platform.valid saves.saved written (saves.short text written)
    seeded (ProgramFile.kept_of_compile saves.made limited few saves.named)

/-- What a saved program borrows can be lent and numbered. -/
theorem addressable (saves : c.Saves platform p bytes) (sound : c.Sound) : c.Addressable := by
  obtain ⟨_, _, few, _⟩ := ProgramFile.exists_of_encode saves.saved
  obtain ⟨_, ofVars, _, length⟩ := Program.length_of_compile saves.made
  have named := saves.named
  rw [ofVars, NameMap.names, List.length_map, ProgramFile.maxHeader] at named
  rw [length, ProgramFile.maxInstrs] at few
  -- So few instructions are written for narrow blocks only, and for few of them.
  have narrow : c.expression.broadest ≤ 2 ^ 12 + 1 :=
    Expr.broadest_le_of_steps (by decide) c.expression few
  have wide := c.expression.width_le_steps
  have blocks := c.expression.blocks_le_steps
  refine ⟨?_, ?_, by omega, ?_⟩
  · rw [Host.room_eq]
    exact (Nat.mul_le_mul sound.few narrow).trans (by decide)
  · exact (Nat.mul_le_mul sound.few (wide.trans few)).trans_lt (by decide)
  · have same : c.seeds.entries.length = c.declared.entries.length := by
      simp [Config.seeds, NameMap.mapValues]
    omega

end Config.Saves

namespace Session

variable {s : Session} {platform : Platform} {p : Program Float} {bytes : Bytes}
  {stamp : Option String}

/-- What a session that compiles and one that takes the file over answer and print. -/
theorem exists_answers_pass {c : Config} (saves : c.Saves platform p bytes)
    (valid : c.validate = .ok ()) (compiled : c.runtime.eager = false) (machine : Platform) :
    ∃ found, ∀ s : Session, s.platform = machine → s.config = c → s.data = c.inputs →
      s.Takes c.seeds p → ∀ listing w, Task.Answers (s.pass c.seeds listing) w found
        (if listing then p.listing 0.0 else "") := by
  -- The memory of a pass depends on the machine, the description and the data only.
  let plain : Session := ⟨machine, c, .info, false, "", none, c.inputs⟩
  have sound := Config.sound_of_validate valid
  have ready : plain.Ready := ⟨sound, saves.addressable sound, plain.laid rfl⟩
  have directs := plain.directs_seeds
  obtain ⟨within, beyond⟩ := ready.compile directs.given (directs.only compiled)
  -- The program was made, so its temporaries fit.
  have affordable : c.Affordable := by
    by_contra unaffordable
    obtain ⟨_, _, unmade⟩ := beyond unaffordable
    cases saves.made.symm.trans unmade
  obtain ⟨q, made, h, _, runs⟩ := within affordable
  obtain rfl := Except.ok.inj (saves.made.symm.trans made)
  refine ⟨registers plain.load.1 h, ?_⟩
  intro s here same drawn takes listing w
  obtain ⟨there, config, level, listed, metricsPath, program?, data⟩ := s
  dsimp only at here same drawn
  subst here same drawn
  have answers := answers_passProgram (p := p)
    (s := ⟨there, config, level, listed, metricsPath, program?, config.inputs⟩) runs
  exact answers_pass compiled takes answers listing w

/-- Saving leaves the file of the program on the disk. -/
theorem exists_of_save {path : String} {w w' : World} (saved : save stamp path p w = .ok () w') :
    ∃ bytes d, ProgramFile.encode stamp p = .ok bytes ∧ Disk.write d path bytes = .ok w'.disk := by
  -- The file is emptied first, and written once the bytes are known.
  obtain ⟨_, w₁, _, rest⟩ := Action.bind_eq_ok.mp saved
  obtain ⟨bytes, w₂, answered, put⟩ := Action.bind_eq_ok.mp rest
  obtain ⟨encoded, rfl⟩ := Action.ofExcept_eq_ok.mp answered
  dsimp only at put
  rw [Action.get_bind] at put
  refine ⟨bytes, w₂.disk, ok_of_mapError encoded, ?_⟩
  cases written : w₂.disk.write path bytes with
  | error cause =>
    rw [written] at put
    cases put
  | ok disk =>
    rw [written] at put
    obtain ⟨_, rfl⟩ := EStateM.Result.ok.inj put
    rfl

/-- A session that compiles leaves the file of its program on the disk. -/
theorem exists_of_compile {path : String} {w w' : World}
    (compiled : s.compile path w = .ok () w') :
    ∃ p bytes d,
      Program.compile s.config.expression s.config.paths s.config.seeds
        s.config.runtime.maxTempElements = .ok p ∧
      ProgramFile.encode s.platform.stamp p = .ok bytes ∧
      Disk.write d path bytes = .ok w'.disk := by
  obtain ⟨p, w₁, along, rest⟩ := Action.bind_eq_ok.mp compiled
  have made : Program.compile s.config.expression s.config.paths s.config.seeds
      s.config.runtime.maxTempElements = .ok p := by
    unfold compileAlong at along
    cases made : Program.compile s.config.expression s.config.paths s.config.seeds
        s.config.runtime.maxTempElements with
    | error halt =>
      rw [made] at along
      cases along
    | ok q =>
      rw [made] at along
      obtain ⟨rfl, _⟩ := EStateM.Result.ok.inj along
      rfl
  -- Printing, before the file is saved or after it, does not touch the disk.
  have told {v v' : World} (ended : (do
        save s.platform.stamp path p
        Task.print s!"wrote {path}: {p.instrs.length} instructions, {p.peak} peak temp elements\n" :
      Task Unit) v = .ok () v') :
      ∃ bytes d, ProgramFile.encode s.platform.stamp p = .ok bytes ∧
        Disk.write d path bytes = .ok v'.disk := by
    obtain ⟨_, v₁, saved, printed⟩ := Action.bind_eq_ok.mp ended
    obtain ⟨_, rfl⟩ := EStateM.Result.ok.inj printed
    obtain ⟨bytes, d, encoded, written⟩ := exists_of_save saved
    exact ⟨bytes, d, encoded, written⟩
  refine ⟨p, ?_⟩
  -- With a listing there is one more step before the file is saved.
  split at rest
  · obtain ⟨_, _, _, rest⟩ := Action.bind_eq_ok.mp rest
    obtain ⟨bytes, d, stored⟩ := told rest
    exact ⟨bytes, d, made, stored⟩
  · obtain ⟨bytes, d, stored⟩ := told rest
    exact ⟨bytes, d, made, stored⟩

/-- Once the file is emptied, the program is looked at, and then the file is written again. -/
theorem save_of_emptied {path : String} {w : World} {d : Disk}
    (emptied : w.disk.write path [] = .ok d) :
    save stamp path p w =
      match ProgramFile.encode stamp p with
      | .error cause => .error (.error (.file cause)) { w with disk := d }
      | .ok bytes =>
        match d.write path bytes with
        | .error cause => .error (.error (.saveFile cause)) { w with disk := d }
        | .ok d' => .ok () { w with disk := d' } := by
  unfold save
  rw [Action.bind_apply]
  dsimp only
  rw [Action.get_bind, emptied]
  -- What follows depends on the program, and then on the emptied disk.
  cases ProgramFile.encode stamp p with
  | error cause => rfl
  | ok bytes =>
    refine (Action.bind_ok (a := bytes) rfl).trans ?_
    dsimp only
    rw [Action.get_bind]
    cases d.write path bytes <;> rfl

/-- A program that fits into a file is saved, if the file can be written. -/
theorem save_ok {path : String} {w : World} {d d' : Disk}
    (saved : ProgramFile.encode stamp p = .ok bytes) (emptied : w.disk.write path [] = .ok d)
    (written : d.write path bytes = .ok d') :
    save stamp path p w = .ok () { w with disk := d' } := by
  -- The file is emptied first, and then written.
  rw [save_of_emptied emptied, saved]
  simp only [written]

/-- A session whose program fits into a file compiles it, if the file can be written. -/
theorem exists_compile {path : String} {w : World} {d d' : Disk}
    (saves : s.config.Saves s.platform p bytes) (emptied : w.disk.write path [] = .ok d)
    (written : d.write path bytes = .ok d') :
    ∃ w', s.compile path w = .ok () w' := by
  have along : s.compileAlong s.config.seeds w = .ok p w := by
    unfold compileAlong
    rw [saves.made]
    rfl
  -- A listing does not change what is on the disk.
  have stored {v : World} (same : v.disk = w.disk) :
      save s.platform.stamp path p v = .ok () { v with disk := d' } :=
    save_ok saves.saved (same ▸ emptied) written
  unfold compile
  rw [Action.bind_ok along]
  split
  · exact ⟨_, (Action.modify_bind _ _ _).trans (Action.bind_ok (stored rfl))⟩
  · exact ⟨_, Action.bind_ok (stored rfl)⟩

end Session

end Tangent
