import Tangent.Config.Inputs
import Tangent.Proofs.Config.Sound
import Tangent.Proofs.Sample.Draw

/-!
The data of the inputs, as stretches of one stream.

Variables are drawn in the order of their names from one generator, so the data of a variable is a
stretch of the stream that starts where those before it ended. What is not drawn does not move that
place: constants, later variables, derivatives and the expression leave the data alone.
-/

namespace Tangent.Config

open Sample (Generator Distribution)

/-- How many numbers of the stream it takes to draw for variables. -/
def usedBy (count : Nat) (entries : List (String × Variable)) : Nat :=
  (entries.map fun entry => (distribution entry.2).uses count).sum

/-- The place in the stream at which the data of the variable at a position starts. -/
def startOf (c : Config) (position : Nat) : Nat :=
  usedBy c.paths.toNatClampNeg (c.declared.entries.take position)

/-- The numbers that all variables are drawn from. -/
def stream (c : Config) : Nat → Float := (Generator.ofSeed c.randomSeed).stream

/-- Data is drawn for every variable, in order. -/
theorem map_fst_drawInputs (count : Nat) (g : Generator) (entries : List (String × Variable)) :
    (drawInputs count g entries).map (·.1) = entries.map (·.1) := by
  -- The generator moves on, the names stay.
  induction entries generalizing g with
  | nil => rfl
  | cons entry rest ih => simp [drawInputs, ih]

/-- The data of each variable starts where that of those before it ended. -/
theorem getElem?_drawInputs (count start : Nat) (g : Generator)
    (entries : List (String × Variable)) (position : Nat) :
    (drawInputs count (Generator.next^[start] g) entries)[position]? =
      entries[position]?.map fun entry =>
        (entry.1, ((distribution entry.2).values entry.2.value g.stream
          (start + usedBy count (entries.take position)) count).toArray) := by
  induction entries generalizing start position with
  | nil => simp [drawInputs]
  | cons entry rest ih =>
    -- A variable takes what its distribution uses, and the generator has moved on by as much.
    rw [drawInputs, Sample.drawCount_eq]
    cases position with
    | zero => simp [usedBy]
    | succ position => simp [ih, usedBy, Nat.add_assoc]

/-- The drawn data is listed as it was drawn. -/
theorem entries_inputs (c : Config) : c.inputs.entries =
    drawInputs c.paths.toNatClampNeg (Generator.ofSeed c.randomSeed) c.declared.entries := by
  -- Names ascend among the drawn data as they do among the declarations, so none gets lost.
  apply NameMap.entries_foldl_insert (m := .empty)
  show List.Pairwise _ (drawInputs _ _ _)
  rw [← List.pairwise_map (f := fun entry : String × Array Float => entry.1) (R := (· < ·)),
    map_fst_drawInputs, List.pairwise_map]
  exact c.declared.sorted

/-- Data is drawn for the declared variables. -/
theorem names_inputs (c : Config) : c.inputs.names = c.declared.names := by
  -- Data is drawn for one entry after the other, under its own name.
  rw [NameMap.names, entries_inputs, map_fst_drawInputs, NameMap.names]

/-- The data of a variable is a stretch of the stream. -/
theorem find?_inputs {c : Config} {position : Nat} {name : String} {v : Variable}
    (there : c.declared.entries[position]? = some (name, v)) :
    c.inputs.find? name = some ((distribution v).values v.value c.stream (c.startOf position)
      c.paths.toNatClampNeg).toArray := by
  -- Drawing starts at the first number of the stream.
  have drawn := getElem?_drawInputs c.paths.toNatClampNeg 0 (Generator.ofSeed c.randomSeed)
    c.declared.entries position
  rw [Function.iterate_zero_apply, ← entries_inputs, there, Nat.zero_add] at drawn
  exact (c.inputs.mem_entries_iff _ _).mp (List.mem_of_getElem? drawn)

/-- A declared variable has a position. -/
theorem exists_position {c : Config} {name : String} {v : Variable}
    (declared : c.declared.find? name = some v) :
    ∃ position : Nat, c.declared.entries[position]? = some (name, v) :=
  -- The declarations are listed with their names.
  List.mem_iff_getElem?.mp ((c.declared.mem_entries_iff name v).mpr declared)

/-- Every declared variable has an element of data for each path. -/
theorem exists_input {c : Config} {name : String} (declared : c.declared.contains name = true) :
    ∃ data, c.inputs.find? name = some data ∧ data.size = c.paths.toNatClampNeg := by
  -- A variable is drawn at its position, once for each path.
  obtain ⟨v, found⟩ := Option.isSome_iff_exists.mp declared
  obtain ⟨position, there⟩ := exists_position found
  exact ⟨_, find?_inputs there, by simp [Distribution.values]⟩

/-- Data is drawn for declared variables only, and for every path. -/
theorem declared_of_input {c : Config} {name : String} {data : Array Float}
    (found : c.inputs.find? name = some data) :
    c.declared.contains name = true ∧ data.size = c.paths.toNatClampNeg := by
  -- The names of the data are those of the declarations, and each has one array.
  have known : name ∈ c.inputs.names := (c.inputs.mem_names_iff name).mpr ⟨data, found⟩
  rw [names_inputs] at known
  have declared : c.declared.contains name = true :=
    Option.isSome_iff_exists.mpr ((c.declared.mem_names_iff name).mp known)
  obtain ⟨drawn, refound, size⟩ := exists_input declared
  obtain rfl := Option.some.inj (found.symm.trans refound)
  exact ⟨declared, size⟩

/-! What moves the place at which a variable starts -/

/-- How a variable is drawn, if it takes numbers of the stream. -/
def drawn? (v : Variable) : Option Distribution :=
  if distribution v = .constant then none else some (distribution v)

/-- How a name is drawn, if it takes numbers of the stream: a constant takes none. -/
def draws? (c : Config) (name : String) : Option Distribution :=
  (c.declared.find? name).bind drawn?

/-- The entries that take numbers of the stream, with their distributions. -/
def drawers (entries : List (String × Variable)) : List (String × Distribution) :=
  entries.filterMap fun entry => (drawn? entry.2).map fun d => (entry.1, d)

/-- Entries that take no numbers do not count. -/
theorem usedBy_eq (count : Nat) (entries : List (String × Variable)) :
    usedBy count entries = ((drawers entries).map fun entry => entry.2.uses count).sum := by
  -- An entry is dropped only if it is constant, and then it takes no numbers.
  induction entries with
  | nil => rfl
  | cons entry rest ih =>
    have used : usedBy count (entry :: rest) =
        (distribution entry.2).uses count + usedBy count rest := by
      simp [usedBy]
    rw [used, ih]
    by_cases constant : distribution entry.2 = .constant
    · simp [drawers, drawn?, constant, Distribution.uses]
    · simp [drawers, drawn?, constant]

/-- The names of entries that take numbers ascend. -/
theorem sorted_drawers {entries : List (String × Variable)}
    (sorted : entries.Pairwise (fun a b => a.1 < b.1)) :
    (drawers entries).Pairwise (fun a b => a.1 < b.1) := by
  apply sorted.filterMap
  -- Names stay with their entries, so they keep their order.
  intro a b below x fromA y fromB
  obtain ⟨_, _, rfl⟩ := Option.map_eq_some_iff.mp fromA
  obtain ⟨_, _, rfl⟩ := Option.map_eq_some_iff.mp fromB
  exact below

/-- The names before one that take numbers of the stream, with their distributions. -/
def drawersBefore (c : Config) (name : String) : NameMap Distribution :=
  ⟨drawers (c.declared.entries.filter fun entry => entry.1 < name),
    sorted_drawers (c.declared.sorted.filter _)⟩

/-- An earlier name takes numbers as it is drawn, and no other name does. -/
theorem find?_drawersBefore (c : Config) (name other : String) :
    (c.drawersBefore name).find? other = if other < name then c.draws? other else none := by
  apply Option.ext
  intro d
  rw [← NameMap.mem_entries_iff]
  -- Of a name there is one entry, which is listed here if it is earlier and takes numbers.
  have listed : (other, d) ∈ (c.drawersBefore name).entries ↔
      ∃ v, c.declared.find? other = some v ∧ other < name ∧ drawn? v = some d := by
    simp [drawersBefore, drawers, c.declared.mem_entries_iff, and_assoc]
  rw [listed]
  by_cases earlier : other < name <;> simp [draws?, earlier, Option.bind_eq_some_iff]

/-- Two descriptions that draw alike for all names before one start it at the same place. -/
theorem startOf_eq {c d : Config} {name : String} {v w : Variable} {position other : Nat}
    (paths : d.paths = c.paths) (there : c.declared.entries[position]? = some (name, v))
    (there' : d.declared.entries[other]? = some (name, w))
    (alike : ∀ before < name, d.draws? before = c.draws? before) :
    d.startOf other = c.startOf position := by
  -- The same names draw before it, with the same distributions, and only these move its start.
  have same : d.drawersBefore name = c.drawersBefore name := by
    apply NameMap.eq_of_find?
    intro before
    rw [find?_drawersBefore, find?_drawersBefore]
    by_cases earlier : before < name
    · simp [alike before earlier]
    · simp [earlier]
  have entries := congrArg NameMap.entries same
  simp only [drawersBefore] at entries
  rw [startOf, startOf, d.declared.take_eq_filter there', c.declared.take_eq_filter there,
    usedBy_eq, usedBy_eq, entries, paths]

/--
The data of the inputs comes of one stream, and what takes none of it changes nothing.

In the order of their names, uniform variables take a number for each path, normal ones two for
each pair of paths, and constants none. So a variable has the same data in any two descriptions
with the same seed and paths that state it alike and draw alike for the names before it: whatever
they say of constants, of later names, of derivatives and of the expression.
-/
theorem inputs_from_stream (c : Config) :
    (c.validate = .ok () → c.inputs.names = c.declared.names ∧
      ∀ position name v, c.declared.entries[position]? = some (name, v) →
        ∃ data, c.inputs.find? name = some data ∧ (data.size : Int) = c.paths.toInt ∧
          ∀ path < data.size, data[path]? =
            some ((distribution v).valueAt v.value c.stream (c.startOf position) path)) ∧
    ∀ d : Config, d.randomSeed = c.randomSeed → d.paths = c.paths →
      ∀ name v w, c.declared.find? name = some v → d.declared.find? name = some w →
        w.dist = v.dist → w.value = v.value →
        (∀ before < name, d.draws? before = c.draws? before) →
        d.inputs.find? name = c.inputs.find? name := by
  constructor
  · intro valid
    have sound := sound_of_validate valid
    refine ⟨names_inputs c, ?_⟩
    intro position name v there
    refine ⟨_, find?_inputs there, ?_, ?_⟩
    · -- A description that is accepted has a positive number of paths, which is no clamped one.
      have positive := sound.positive
      simp only [List.size_toArray, Distribution.values, List.length_map, List.length_range]
      rw [Int64.toNatClampNeg] at positive ⊢
      omega
    · intro path below
      simp only [List.size_toArray, Distribution.values, List.length_map,
        List.length_range] at below
      simp [Distribution.values, below]
  · intro d seed paths name v w known known' dist value alike
    obtain ⟨position, there⟩ := exists_position known
    obtain ⟨other, there'⟩ := exists_position known'
    -- Both draw as many values in the same way, from the same place of the same stream.
    rw [find?_inputs there, find?_inputs there', startOf_eq paths there there' alike, paths, value]
    simp only [distribution, dist, stream, seed]

/-- A normal, a uniform and a constant input on three paths. -/
def mixedInputs : Config :=
  { demo with
    paths := 3
    declared := .ofList [("a", ⟨"normal", 0.0, 1.0⟩), ("b", ⟨"uniform", 0.0, 0.0⟩),
      ("c", ⟨"constant", 4.0, 0.0⟩)]
    expression := .mul [.var "a", .var "b", .var "c"] }

/-- The same inputs and a constant before the second one, for another expression. -/
def moreInputs : Config :=
  { mixedInputs with
    declared := mixedInputs.declared.insert "aa" ⟨"constant", 7.0, 1.0⟩
    expression := .var "b" }

/-- A normal input takes two pairs for three paths, so the next one starts at the fifth number. -/
theorem inputs_from_stream_mixed :
    (∃ data, mixedInputs.inputs.find? "b" = some data ∧ (data.size : Int) = 3 ∧
      data[2]? = some (mixedInputs.stream 6)) ∧
    moreInputs.inputs.find? "b" = mixedInputs.inputs.find? "b" := by
  obtain ⟨drawn, unmoved⟩ := inputs_from_stream mixedInputs
  constructor
  · obtain ⟨data, found, size, values⟩ := (drawn rfl).2 1 "b" ⟨"uniform", 0.0, 0.0⟩ rfl
    have paths : (data.size : Int) = 3 := size
    exact ⟨data, found, paths, values 2 (by omega)⟩
  · apply unmoved moreInputs rfl rfl "b" ⟨"uniform", 0.0, 0.0⟩ ⟨"uniform", 0.0, 0.0⟩ rfl rfl rfl rfl
    intro before _
    -- The new name takes no numbers, as if it were not declared; every other one is as it was.
    rw [draws?, draws?, moreInputs, NameMap.find?_insert]
    split
    · subst before
      rfl
    · rfl

end Tangent.Config
