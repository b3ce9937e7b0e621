import Tangent.Proofs.Walk.Memory

/-!
The walk, path by path.

Whatever the registers and new blocks hold, a walk over a tree that can be evaluated leaves the
dual of the tree on every path, computed from the inputs of that path in a fixed order.
-/

namespace Tangent

variable {α : Type}

/-- No element belongs to both views. -/
def View.Disjoint (a b : View) : Prop :=
  a.block = b.block → a.start + a.length ≤ b.start ∨ b.start + b.length ≤ a.start

/-- Views without a common element are apart in their first elements. -/
theorem View.Disjoint.apart {a b : View} (disjoint : a.Disjoint b) {n : Nat}
    (first : n ≤ a.length) (second : n ≤ b.length) : a.Apart b n := by
  -- What separates the whole views separates their beginnings.
  intro same
  have order := disjoint same
  omega

/-- A buffer of at least `n` elements, all of them in the store. -/
structure Store.Buffer (s : Store α) (v : View) (n : Nat) : Prop where
  long : n ≤ v.length
  there : ∀ p < v.length, (s.read? v p).isSome

/-- A buffer has its first elements. -/
theorem Store.Buffer.reaches {s : Store α} {v : View} {n : Nat} (buffer : s.Buffer v n) :
    s.Reaches v n :=
  -- A buffer may be longer than the elements that are asked for.
  ⟨buffer.long, fun p below => buffer.there p (Nat.lt_of_lt_of_le below buffer.long)⟩

/-- Registers and data are buffers for `n` paths, the registers apart from each other and data. -/
structure Context.Laid (c : Context α View) (n : Nat) (s : Store α) : Prop where
  paths : c.paths = Int64.ofNat n
  positive : 0 < n
  value : s.Buffer c.value n
  deriv : s.Buffer c.deriv n
  apart : c.value.Disjoint c.deriv
  data : ∀ name b, c.bindings.find? name = some b →
    s.Buffer b.data n ∧ b.data.Disjoint c.value ∧ b.data.Disjoint c.deriv

/-- The value and the seed of a name on a path. -/
def Context.input [Elem α] (c : Context α View) (s : Store α) (p : Nat) (name : String) : α × α :=
  match c.bindings.find? name with
  | some b => ((s.read? b.data p).getD Elem.zero, b.seed)
  | none => (Elem.zero, Elem.zero)

namespace Context.Laid

variable {c : Context α View} {n : Nat} {s t : Store α}

/-- A context laid out in a store fits a walk. -/
theorem fits [Elem α] (laid : c.Laid n s) (small : n ≤ Host.room) : c.Fits n (c.input s) s where
  paths := laid.paths
  positive := laid.positive
  small := small
  value := laid.value.reaches
  deriv := laid.deriv.reaches
  apart := laid.apart.apart laid.value.long laid.deriv.long
  bound name b found := by
    obtain ⟨buffer, fromValue, fromDeriv⟩ := laid.data name b found
    refine ⟨⟨buffer.long, fun p below => ?_⟩, fun p => by simp [input, found],
      fromValue.apart buffer.long laid.value.long, fromDeriv.apart buffer.long laid.deriv.long⟩
    -- The input of a path is what the data holds there.
    obtain ⟨x, held⟩ := Option.isSome_iff_exists.mp (buffer.reaches.there p below)
    simp [input, found, held]

/-- Behind the paths the registers keep their elements. -/
theorem keeps_behind (laid : c.Laid n s) (changed : Store.Changes (c.registers n) s t) {p : Nat}
    (behind : n ≤ p) :
    (p < c.value.length → t.read? c.value p = s.read? c.value p) ∧
      (p < c.deriv.length → t.read? c.deriv p = s.read? c.deriv p) := by
  -- What changed lies in the first elements of either register.
  have order := laid.apart
  have longValue := laid.value.long
  have longDeriv := laid.deriv.long
  have oldValue := laid.value.reaches.block_lt laid.positive
  have oldDeriv := laid.deriv.reaches.block_lt laid.positive
  simp only [Store.read?_eq, View.Disjoint] at order ⊢
  -- An element behind the paths is none of its own register's first ones, nor of the other's.
  refine ⟨fun inside => changed.keeps _ _ oldValue ?_, fun inside => changed.keeps _ _ oldDeriv ?_⟩
  · rintro (⟨_, low, high⟩ | ⟨same, low, high⟩)
    · omega
    · have := order same
      omega
  · rintro (⟨same, low, high⟩ | ⟨_, low, high⟩)
    · have := order same.symm
      omega
    · omega

/-- Input data keeps its elements. -/
theorem keeps_data (laid : c.Laid n s) (changed : Store.Changes (c.registers n) s t) {name : String}
    {b : Binding α View} (found : c.bindings.find? name = some b) :
    t.contents b.data = s.contents b.data := by
  obtain ⟨buffer, fromValue, fromDeriv⟩ := laid.data name b found
  have longValue := laid.value.long
  have longDeriv := laid.deriv.long
  refine Store.contentsFrom_congr (fun p _ inside => ?_)
  rw [Store.read?_eq, Store.read?_eq]
  refine changed.keeps _ _ (buffer.reaches.block_lt laid.positive) ?_
  -- A position of a register is none of the data, which is disjoint from both.
  rintro (⟨same, low, high⟩ | ⟨same, low, high⟩)
  · have := fromValue same
    omega
  · have := fromDeriv same
    omega

end Context.Laid

namespace Walk

variable [Elem α]

/-- A walk with at least one path leaves the duals of its tree, or stops at the tree's defect. -/
theorem generate_memory {h : Host α} {c : Context α View} {n : Nat} {root : Expr α}
    (ready : h.Ready) (laid : c.Laid n h.store) (small : n * max 1 root.broadest ≤ Host.room) :
    ∃ t, Store.Changes (c.registers n) h.store t ∧
      h.Ends (generate Host.backend c root) t (root.defect? (h.terms c) h.liveElements)
        (Leaves c n (fun p => root.dual (c.input h.store p)) t) := by
  have few : n ≤ Host.room :=
    Nat.le_trans (Nat.le_mul_of_pos_right n (by omega)) small
  -- There are paths, so the check before the walk passes.
  have positive : ¬ c.paths ≤ 0 := by
    rw [laid.paths]
    exact ofNat_pos laid.positive (Host.lt_of_le_room few)
  have started : (Action.ofExcept c.validate : Action (Host α) WalkError Unit) h = .ok () h := by
    rw [Context.validate, if_neg positive]
    rfl
  obtain ⟨t, changed, ends⟩ := visit_memory root h ready (laid.fits few)
    (Expr.le_of_mul_max_le small).2
  exact ⟨t, changed, .of_eq (Action.bind_ok started) ends⟩

/--
What a walk is started on: memory that holds all buffers, and a tree that can be evaluated.

The registers and the broadest block of the tree have to be addressable.
-/
structure Setup (h : Host α) (c : Context α View) (n : Nat) (root : Expr α) : Prop where
  ready : h.Ready
  laid : c.Laid n h.store
  small : n * max 1 root.broadest ≤ Host.room
  accepted : root.validate = .ok ()
  bound : ∃ names, root.vars = .ok names ∧ ∀ name ∈ names, c.bindings.contains name = true

namespace Setup

variable {h g : Host α} {c d : Context α View} {n m : Nat} {root : Expr α}

/-- A walk on memory without a limit goes through. -/
theorem succeeds (setup : Setup h c n root) (unlimited : h.limit ≤ 0) :
    ∃ h', generate Host.backend c root h = .ok () h' := by
  -- A tree that is accepted, with all names bound and no block refused, has no defect.
  obtain ⟨names, listed, covered⟩ := setup.bound
  have sound : root.defect? (h.terms c) h.liveElements = none :=
    Expr.defect?_eq_none_of_check (Host.refusal_eq_none unlimited) root [] _ setup.accepted
      (fun name named => covered name ((Expr.mem_vars listed name).mpr named))
  obtain ⟨t, _, ends⟩ := generate_memory setup.ready setup.laid setup.small
  rw [sound] at ends
  exact ⟨_, ends.1⟩

/-- A walk that goes through leaves the duals of its tree and changes the registers only. -/
theorem leaves (setup : Setup h c n root) {h' : Host α}
    (ran : generate Host.backend c root h = .ok () h') :
    Store.Changes (c.registers n) h.store h'.store ∧
      Leaves c n (fun p => root.dual (c.input h.store p)) h'.store := by
  obtain ⟨t, changed, ends⟩ := generate_memory setup.ready setup.laid setup.small
  cases stopped : root.defect? (h.terms c) h.liveElements with
  | some cause =>
    -- A walk with a defect does not go through.
    rw [stopped] at ends
    exact absurd (ran.symm.trans ends) (by simp)
  | none =>
    rw [stopped] at ends
    have same : h' = { h with store := t } := by simpa using ran.symm.trans ends.1
    rw [same]
    exact ⟨changed, ends.2⟩

end Setup

/-- Memory with two registers, the longer one for derivatives, and the data of one variable. -/
def sampleHost : Host α where
  store := ⟨#[#[Elem.one, Elem.one], #[Elem.one, Elem.one, Elem.one], #[Elem.zero, Elem.one]]⟩
  live := []
  liveElements := 0
  limit := 0
  chunking := ⟨true, 2, 1⟩
  blank _ _ := Elem.one

/-- One variable, with a seed of one. -/
def sampleInputs : NameMap (Binding α View) := .insert .empty "x" ⟨⟨2, 0, 2⟩, Elem.one⟩

/-- Two paths with that variable. -/
def sampleContext : Context α View := ⟨2, ⟨0, 0, 2⟩, ⟨1, 0, 3⟩, sampleInputs⟩

/-- A product in which a variable occurs twice, once below an exponential. -/
def sampleTree : Expr α := .mul [.var "x", .exp (.var "x"), .const Elem.one]

/-- There is no other variable. -/
theorem find?_sampleInputs (name : String) :
    (sampleInputs : NameMap (Binding α View)).find? name =
      if "x" = name then some ⟨⟨2, 0, 2⟩, Elem.one⟩ else none := by
  -- One variable was entered.
  simp [sampleInputs, NameMap.find?_insert, NameMap.find?_empty]

/-- A walk over the product can be started. -/
theorem sample_setup : Setup (sampleHost : Host α) sampleContext 2 sampleTree where
  ready := ⟨fun entry found => absurd found List.not_mem_nil, by decide, .inl (Int.le_refl 1)⟩
  laid :=
    { paths := rfl
      positive := by decide
      -- Each buffer fills a block of its own.
      value := ⟨Nat.le_refl 2, fun | 0, _ => rfl | 1, _ => rfl⟩
      deriv := ⟨Nat.le_succ 2, fun | 0, _ => rfl | 1, _ => rfl | 2, _ => rfl⟩
      apart := fun same => by cases same
      data := by
        intro name b found
        rw [sampleContext, find?_sampleInputs] at found
        split at found
        · cases found
          exact ⟨⟨Nat.le_refl 2, fun | 0, _ => rfl | 1, _ => rfl⟩, (fun same => by cases same),
            (fun same => by cases same)⟩
        · cases found }
  small := by
    show 2 * max 1 4 ≤ Host.room
    decide
  accepted := rfl
  bound := ⟨["x"], rfl, fun name found => by
    simp [sampleContext, NameMap.contains, find?_sampleInputs, List.mem_singleton.mp found]⟩

/--
A walk computes the dual of its tree on every path, in the order in which the dual is defined.

It goes through when memory has no limit. Whenever it goes through, elements of the derivative
behind the paths and all input data are as before, and two walks that give a path the same inputs
leave the same there, whatever else they work on.
-/
theorem generate_refines_dual {h : Host α} {c : Context α View} {n : Nat} {root : Expr α}
    (setup : Setup h c n root) :
    (h.limit ≤ 0 → ∃ h', generate Host.backend c root h = .ok () h') ∧
    ∀ h', generate Host.backend c root h = .ok () h' →
      (∀ p < n, h'.store.read? c.value p = some (root.dual (c.input h.store p)).1 ∧
        h'.store.read? c.deriv p = some (root.dual (c.input h.store p)).2) ∧
      (∀ p, n ≤ p → p < c.deriv.length →
        h'.store.read? c.deriv p = h.store.read? c.deriv p) ∧
      (∀ name b, c.bindings.find? name = some b → h'.contents b.data = h.contents b.data) ∧
      ∀ {g g' : Host α} {d : Context α View} {m : Nat}, Setup g d m root →
        generate Host.backend d root g = .ok () g' → ∀ p < n, ∀ q < m,
          (∀ name ∈ root.mentioned, c.input h.store p name = d.input g.store q name) →
          h'.store.read? c.value p = g'.store.read? d.value q ∧
            h'.store.read? c.deriv p = g'.store.read? d.deriv q := by
  refine ⟨setup.succeeds, fun h' ran => ?_⟩
  obtain ⟨changed, left⟩ := setup.leaves ran
  refine ⟨fun p below => ⟨left.value.holds p below, left.deriv.holds p below⟩,
    fun p behind inside => (setup.laid.keeps_behind changed behind).2 inside,
    fun name b found => setup.laid.keeps_data changed found,
    fun {g g' d m} other ran' p below q within same => ?_⟩
  -- Both walks leave the dual of one tree, which depends on the inputs of the path only.
  have left' := (other.leaves ran').2
  have alike := Expr.dual_congr root same
  rw [left.value.holds p below, left.deriv.holds p below, left'.value.holds q within,
    left'.deriv.holds q within, alike]
  exact ⟨rfl, rfl⟩

/-- The program's own numbers: both paths of the product get their duals. -/
theorem generate_refines_dual_sample :
    Setup (sampleHost : Host Float) sampleContext 2 sampleTree ∧
    ∃ h', generate Host.backend sampleContext sampleTree (sampleHost : Host Float) = .ok () h' ∧
      ∀ p < 2, h'.store.read? ⟨0, 0, 2⟩ p =
          some (sampleTree.dual (sampleContext.input sampleHost.store p)).1 ∧
        h'.store.read? ⟨1, 0, 3⟩ p =
          some (sampleTree.dual (sampleContext.input sampleHost.store p)).2 := by
  -- The memory has no limit, so the walk gets through.
  have setup : Setup (sampleHost : Host Float) sampleContext 2 sampleTree := sample_setup
  obtain ⟨h', ran⟩ := (generate_refines_dual setup).1 (by decide)
  exact ⟨setup, h', ran, ((generate_refines_dual setup).2 h' ran).1⟩

end Walk

end Tangent
