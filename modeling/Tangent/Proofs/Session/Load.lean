import Tangent.Proofs.Config.Sound
import Tangent.Proofs.Exec.Compiled
import Tangent.Proofs.Session
import Tangent.Proofs.Walk.Budget

/-!
The memory of a pass.

It has a block of its own for each register and for the data of each declared variable, all with an
element for every path, and nothing is on loan yet. So every tree over declared variables can be
walked over and compiled in it.
-/

namespace Tangent

/-- A whole block of a store. -/
theorem Store.buffer_of_block {α : Type} {s : Store α} {v : View} {block : Array α}
    (there : s.blocks[v.block]? = some block) (start : v.start = 0) (size : v.length = block.size) :
    s.Buffer v v.length := by
  -- The view starts with the block and is as long.
  refine ⟨Nat.le_refl _, ?_⟩
  intro p below
  rw [Store.read?, there, start, Nat.zero_add, Option.bind_some,
    Array.getElem?_eq_getElem (by omega)]
  rfl

namespace Session

/-- Memory before and after data was put into it, each in a new block. -/
structure Adopted (h : Host Float) (entries : List (String × Array Float)) (views : NameMap View)
    (h' : Host Float) : Prop where
  same : h' = { h with store := h'.store }
  grown : h.store.blocks.size ≤ h'.store.blocks.size
  old : ∀ block < h.store.blocks.size, h'.store.blocks[block]? = h.store.blocks[block]?
  found : ∀ name view, views.find? name = some view → ∃ data, (name, data) ∈ entries ∧
    view.start = 0 ∧ view.length = data.size ∧ h.store.blocks.size ≤ view.block ∧
    h'.store.blocks[view.block]? = some data

/-- Data is put into new blocks. -/
theorem adopted (h : Host Float) (entries : List (String × Array Float)) :
    Adopted h entries (adoptAll h entries).1 (adoptAll h entries).2 := by
  induction entries generalizing h with
  | nil =>
    refine ⟨rfl, Nat.le_refl _, fun _ _ => rfl, ?_⟩
    intro name view known
    simp [adoptAll] at known
  | cons entry rest ih =>
    obtain ⟨name, data⟩ := entry
    have later := ih (h.adopt data).2
    -- The first entry gets the next block, and all others get later ones.
    have next : (h.adopt data).2.store.blocks.size = h.store.blocks.size + 1 := by
      simp [Host.adopt, Store.push]
    have own : (h.adopt data).2.store.blocks[h.store.blocks.size]? = some data := by
      simp [Host.adopt, Store.push]
    refine ⟨later.same, ?_, ?_, ?_⟩
    · have grown := later.grown
      show _ ≤ (adoptAll (h.adopt data).2 rest).2.store.blocks.size
      omega
    · intro block below
      show (adoptAll (h.adopt data).2 rest).2.store.blocks[block]? = _
      rw [later.old block (by omega)]
      simp [Host.adopt, Store.push, Array.getElem?_push, Nat.ne_of_lt below]
    · intro other view known
      simp only [adoptAll, NameMap.find?_insert] at known
      -- The name is that of the first entry, or its data was found among the others.
      split at known
      · rename_i same
        subst same
        obtain rfl := Option.some.inj known
        refine ⟨data, by simp, rfl, rfl, Nat.le_refl _, ?_⟩
        show (adoptAll (h.adopt data).2 rest).2.store.blocks[h.store.blocks.size]? = _
        rw [later.old _ (by omega), own]
      · obtain ⟨found, among, start, size, above, there⟩ := later.found other view known
        exact ⟨found, by simp [among], start, size, by omega, there⟩

end Session

/-- A description whose blocks can be lent, and whose variables and temporaries can be numbered. -/
structure Config.Addressable (c : Config) : Prop where
  blocks : c.paths.toNatClampNeg * c.expression.broadest ≤ Host.room
  total : c.paths.toNatClampNeg * c.expression.width < 2 ^ 63
  temps : c.expression.blocks ≤ 2 ^ 63
  names : c.declared.entries.length ≤ 2 ^ 63

namespace Session

/-- Kernels cut the range of any block properly. -/
theorem proper_chunking (processors workers : Int64) :
    (chunking processors workers).Proper Host.room :=
  -- A chunk has at least one index, however many workers there are.
  ⟨by decide, .inl (show 1 ≤ (16384 : Int64).toInt by decide)⟩

/-- The memory of a pass before any loan: a block for each register and for all data. -/
structure Laid (s : Session) : Prop where
  value : s.load.1.value = ⟨0, 0, s.config.paths.toNatClampNeg⟩
  deriv : s.load.1.deriv = ⟨1, 0, s.config.paths.toNatClampNeg⟩
  registers : s.load.2.store.Buffer s.load.1.value s.config.paths.toNatClampNeg ∧
    s.load.2.store.Buffer s.load.1.deriv s.config.paths.toNatClampNeg
  fresh : s.load.2.live = [] ∧ s.load.2.liveElements = 0
  limit : s.load.2.limit = s.config.runtime.maxTempElements
  ready : s.load.2.Ready
  bound : ∀ name, s.config.declared.contains name = true →
    ∃ v, s.load.1.vars.find? name = some v
  data : ∀ name v, s.load.1.vars.find? name = some v →
    s.config.declared.contains name = true ∧ 2 ≤ v.block ∧
    s.load.2.store.Buffer v s.config.paths.toNatClampNeg

/-- A session with its data drawn has such memory. -/
theorem laid (s : Session) (drawn : s.data = s.config.inputs) : s.Laid := by
  -- Both registers start with zeros, one for each path.
  let blank : Array Float := Array.replicate s.config.paths.toNatClampNeg 0.0
  have adopts := adopted ((s.host.adopt blank).2.adopt blank).2 s.data.entries
  -- The registers are the first two blocks, which stay as they are.
  have two : ((s.host.adopt blank).2.adopt blank).2.store.blocks = #[blank, blank] := rfl
  have old (block : Nat) (below : block < 2) : s.load.2.store.blocks[block]? = some blank := by
    refine (adopts.old block below).trans ?_
    rw [two]
    interval_cases block <;> rfl
  have same : s.load.2 = { s.host with store := s.load.2.store } := adopts.same
  have size : blank.size = s.config.paths.toNatClampNeg := Array.size_replicate
  have value : s.load.1.value = ⟨0, 0, s.config.paths.toNatClampNeg⟩ := by
    show (⟨0, 0, blank.size⟩ : View) = _
    rw [size]
  have deriv : s.load.1.deriv = ⟨1, 0, s.config.paths.toNatClampNeg⟩ := by
    show (⟨1, 0, blank.size⟩ : View) = _
    rw [size]
  refine ⟨value, deriv, ⟨?_, ?_⟩, ?_, ?_, ⟨?_, ?_⟩, ?_, ?_⟩
  · rw [value]
    exact Store.buffer_of_block (old 0 (by decide)) rfl size.symm
  · rw [deriv]
    exact Store.buffer_of_block (old 1 (by decide)) rfl size.symm
  · rw [same]
    exact ⟨rfl, rfl⟩
  · rw [same]
    rfl
  · rw [same]
    exact fun entry found => absurd found List.not_mem_nil
  · rw [same]
    exact proper_chunking _ _
  · intro name declared
    -- Data was drawn for every variable that is declared, and it was put into a block.
    obtain ⟨data, found, _⟩ := Config.exists_input declared
    rw [← drawn] at found
    have named : name ∈ s.data.entries.map (·.1) := (s.data.mem_names_iff name).mpr ⟨data, found⟩
    obtain ⟨view, _, known, _⟩ :=
      exists_view_adoptAll ((s.host.adopt blank).2.adopt blank).2 named
    exact ⟨view, known⟩
  · intro name v known
    -- Data behind the registers has the size that was drawn.
    obtain ⟨data, among, start, length, above, there⟩ := adopts.found name v known
    have found := (s.data.mem_entries_iff name data).mp among
    rw [drawn] at found
    obtain ⟨declared, count⟩ := Config.declared_of_input found
    refine ⟨declared, above, ?_⟩
    rw [← count, ← length]
    exact Store.buffer_of_block there start length

/-- What the walk of a pass works on, with seeds for some of the variables. -/
abbrev context (s : Session) (seeds : NameMap Float) : Context Float View :=
  s.load.1.context s.config.paths.toNatClampNeg seeds

variable {s : Session} {seeds : NameMap Float}

/-- The registers have an element for every path. -/
theorem Laid.length_value (laid : s.Laid) :
    s.load.1.value.length = s.config.paths.toNatClampNeg := by
  -- The value has a block of its own, as long as the paths are many.
  rw [laid.value]

/-- Memory with seeds for some of the declared variables is laid out for a walk. -/
theorem Laid.context (laid : s.Laid) (positive : 0 < s.config.paths.toNatClampNeg)
    (only : ∀ name, seeds.contains name = true → s.config.declared.contains name = true) :
    (s.context seeds).Laid s.config.paths.toNatClampNeg s.load.2.store where
  paths := rfl
  positive := positive
  value := laid.registers.1
  deriv := laid.registers.2
  apart := by
    intro same
    simp only [Memory.context, laid.value, laid.deriv] at same
    omega
  data name b found := by
    -- The seed of a variable goes with its data, which is in a block of its own.
    simp only [Memory.context, NameMap.find?_mapValues, Option.map_eq_some_iff] at found
    obtain ⟨seed, given, rfl⟩ := found
    obtain ⟨v, known⟩ := laid.bound name (only name (by simp [NameMap.contains, given]))
    obtain ⟨_, above, buffer⟩ := laid.data name v known
    simp only [Memory.context, known, Option.getD_some]
    refine ⟨buffer, ?_, ?_⟩
    · intro same
      rw [laid.value] at same
      simp only at same
      omega
    · intro same
      rw [laid.deriv] at same
      simp only at same
      omega

/-- A session that can evaluate: its description is sound and fits, and its memory is laid out. -/
structure Ready (s : Session) : Prop where
  sound : s.config.Sound
  addressable : s.config.Addressable
  laid : s.Laid

/-- A session is ready once its description is accepted and its data drawn. -/
theorem ready_of_validate (valid : s.config.validate = .ok ())
    (addressable : s.config.Addressable) (drawn : s.data = s.config.inputs) : s.Ready :=
  -- The check makes the tree sound, and drawing lays the data.
  ⟨Config.sound_of_validate valid, addressable, s.laid drawn⟩

/-- The variables of the expression can be listed. -/
theorem Ready.vars_eq (ready : s.Ready) : s.config.expression.vars = .ok s.config.names := by
  -- The tree was accepted, so listing its variables meets no flaw.
  obtain ⟨names, listed⟩ := Expr.exists_vars ready.sound.tree
  rw [Config.names, listed]
  rfl

/-- The variables of the expression are declared. -/
theorem Ready.declared (ready : s.Ready) {name : String} (named : name ∈ s.config.names) :
    s.config.declared.contains name = true :=
  -- They are mentioned, and the check looks for the declaration of all that is.
  ready.sound.declared name ((Expr.mem_vars ready.vars_eq name).mp named)

/-- Trees over declared variables can be walked over and compiled in the memory of a pass. -/
theorem Ready.holds (ready : s.Ready)
    (only : ∀ name, seeds.contains name = true → s.config.declared.contains name = true) :
    s.load.1.Holds s.load.2 s.config.paths.toNatClampNeg seeds s.config.expression where
  ready := ready.laid.ready
  fresh := ready.laid.fresh
  present name given := ready.laid.bound name (only name given)
  laid := ready.laid.context ready.sound.positive only
  small := by
    have few := ready.sound.few
    have blocks := ready.addressable.blocks
    rw [Host.room_eq] at blocks ⊢
    -- Even without a block the registers have to be addressed.
    rcases Nat.le_total 1 s.config.expression.broadest with broad | narrow
    · rwa [Nat.max_eq_right broad]
    · rw [Nat.max_eq_left narrow]
      omega
  countable := ⟨Nat.le_trans (NameMap.length_le_of_contains only) ready.addressable.names,
    ready.addressable.temps⟩

end Session

end Tangent
