import Tangent.Proofs.Vector.Host
import Tangent.Proofs.Walk.Defect
import Tangent.Proofs.Walk.Dual

/-!
Walks on memory and how they are described.

A context fits a store when its registers and its data lie there apart from each other. A step of a
walk either ends with a property of the store it leaves or stops at a defect, and in both cases only
the registers change among the positions that were there before.
-/

namespace Tangent

variable {α : Type}

/-- The first `n` positions of the two registers. -/
def Context.registers (c : Context α View) (n : Nat) : Region := fun block i =>
  c.value.spots n block i ∨ c.deriv.spots n block i

/-- A variable's data covers all paths, shows the inputs, and is apart from the registers. -/
structure Binding.Fits (b : Binding α View) (c : Context α View) (n : Nat)
    (input : Nat → α × α) (s : Store α) : Prop where
  data : s.Shows b.data n (fun p => (input p).1)
  seed : ∀ p, (input p).2 = b.seed
  value : b.data.Apart c.value n
  deriv : b.data.Apart c.deriv n

/-- Registers and data of a walk over `n` paths lie in a store, the registers apart. -/
structure Context.Fits (c : Context α View) (n : Nat) (input : Nat → String → α × α)
    (s : Store α) : Prop where
  paths : c.paths = Int64.ofNat n
  positive : 0 < n
  small : n ≤ Host.room
  value : s.Reaches c.value n
  deriv : s.Reaches c.deriv n
  apart : c.value.Apart c.deriv n
  bound : ∀ name b, c.bindings.find? name = some b → b.Fits c n (fun p => input p name) s

/-- What decides how far a walk on memory gets. -/
def Host.terms (h : Host α) (c : Context α View) : Terms :=
  ⟨c.paths, c.bindings.contains, Host.refusal h.limit⟩

/-- The paths of a walk on memory are those of its context. -/
theorem Host.terms_paths (h : Host α) (c : Context α View) : (h.terms c).paths = c.paths := rfl

/-- A step on memory leaves a store, and stops at a defect or ends with a property. -/
def Host.Ends (h : Host α) (step : Action (Host α) WalkError Unit) (t : Store α)
    (defect : Option WalkError) (property : Prop) : Prop :=
  match defect with
  | none => step h = .ok () { h with store := t } ∧ property
  | some cause => step h = .error (.error cause) { h with store := t }

/-- A step that comes down to another one on a later store ends as that one does. -/
theorem Host.Ends.of_eq {h : Host α} {step rest : Action (Host α) WalkError Unit} {s t : Store α}
    {defect : Option WalkError} {property : Prop} (same : step h = rest { h with store := s })
    (ends : Host.Ends { h with store := s } rest t defect property) :
    h.Ends step t defect property := by
  -- Both ways to end are told by what the step comes to.
  cases defect with
  | none => exact ⟨same.trans ends.1, ends.2⟩
  | some cause => exact same.trans ends

/-- A step and the rest stop at the defect of the step, or else at that of the rest. -/
theorem Host.Ends.andThen {h : Host α} {first rest : Action (Host α) WalkError Unit} {t : Store α}
    {defect later : Option WalkError} {middle : Prop} {kept property : Store α → Prop}
    (ends : h.Ends first t defect middle) (keeps : kept t)
    (next : middle → ∃ u, kept u ∧
      Host.Ends { h with store := t } rest u later (property u)) :
    ∃ u, kept u ∧ h.Ends (do first; rest) u (defect.or later) (property u) := by
  cases defect with
  | some cause => exact ⟨t, keeps, Action.bind_error ends⟩
  | none =>
    -- Only a step that ends with its property is followed by the rest.
    obtain ⟨u, keeps, ends'⟩ := next ends.2
    exact ⟨u, keeps, .of_eq (Action.bind_ok ends.1) ends'⟩

namespace Store

/-- The first `n` positions of several views. -/
def spotsOf (views : List View) (n : Nat) : Region := fun block i =>
  ∃ v ∈ views, v.spots n block i

/-- What is there is shown, whatever it is. -/
theorem Reaches.exists_shows [Elem α] {s : Store α} {v : View} {n : Nat} (reached : s.Reaches v n) :
    ∃ f, s.Shows v n f := by
  -- A position that holds nothing is not asked for, so any number does for it.
  refine ⟨fun p => (s.read? v p).getD Elem.zero, reached.long, fun p below => ?_⟩
  obtain ⟨x, held⟩ := Option.isSome_iff_exists.mp (reached.there p below)
  simp [held]

/-- A view that reaches a number lies in a block of the store. -/
theorem Reaches.block_lt {s : Store α} {v : View} {n : Nat} (reached : s.Reaches v n)
    (positive : 0 < n) : v.block < s.blocks.size := by
  -- It reaches its first number.
  obtain ⟨x, held⟩ := Option.isSome_iff_exists.mp (reached.there 0 positive)
  exact lt_size_of_cell? held

/-- A view apart from several others keeps what it shows while they change. -/
theorem Changes.shows_apart {views : List View} {s t : Store α} {v : View} {n : Nat} {f : Nat → α}
    (changed : Changes (spotsOf views n) s t) (shown : s.Shows v n f)
    (apart : ∀ w ∈ views, v.Apart w n) : t.Shows v n f := by
  refine changed.shows shown (fun p below inside => ?_)
  -- A position of the view would be one of a view that is apart from it.
  obtain ⟨w, found, same, low, high⟩ := inside
  have order := apart w found same
  omega

/-- Changes of views in new blocks are no changes of the blocks there were. -/
theorem Changes.trans_new {region : Region} {views : List View} {s t u : Store α} {n : Nat}
    (first : Changes region s t) (second : Changes (spotsOf views n) t u)
    (new : ∀ v ∈ views, s.blocks.size ≤ v.block) : Changes region s u := by
  refine first.trans second (fun block i old inside => ?_)
  -- No position of a new block is an old one.
  obtain ⟨v, found, same, _⟩ := inside
  have := new v found
  omega

end Store

namespace Context.Fits

variable {c : Context α View} {n : Nat} {input : Nat → String → α × α} {s t : Store α}

/-- What a walk works on is there after a change of the registers, too. -/
theorem of_changes (fits : c.Fits n input s) (changed : Store.Changes (c.registers n) s t) :
    c.Fits n input t where
  paths := fits.paths
  positive := fits.positive
  small := fits.small
  value := changed.reaches fits.value
  deriv := changed.reaches fits.deriv
  apart := fits.apart
  bound name b found := by
    -- The data is apart from both registers, so it still shows the inputs.
    have old := fits.bound name b found
    refine ⟨changed.shows old.data (fun p below inside => ?_), old.seed, old.value, old.deriv⟩
    rcases inside with ⟨same, low, high⟩ | ⟨same, low, high⟩
    · have order := old.value same
      omega
    · have order := old.deriv same
      omega

/-- A view in a new block is apart from the registers. -/
theorem apart_new (fits : c.Fits n input s) {v : View} (new : s.blocks.size ≤ v.block) :
    c.value.Apart v n ∧ c.deriv.Apart v n := by
  -- The registers lie in blocks that were there before.
  have value := fits.value.block_lt fits.positive
  have deriv := fits.deriv.block_lt fits.positive
  exact ⟨fun same => by omega, fun same => by omega⟩

/-- A view in a new block keeps what it shows while the registers change. -/
theorem shows_new (fits : c.Fits n input s) {v : View} (new : s.blocks.size ≤ v.block)
    {u : Store α} (changed : Store.Changes (c.registers n) t u) {f : Nat → α}
    (shown : t.Shows v n f) : u.Shows v n f := by
  -- The registers lie in blocks that were there before.
  have value := fits.value.block_lt fits.positive
  have deriv := fits.deriv.block_lt fits.positive
  refine changed.shows shown (fun p below inside => ?_)
  rcases inside with ⟨same, _⟩ | ⟨same, _⟩
  · omega
  · omega

/-- The elements of a number of stretches, counted by a machine integer. -/
theorem mul_paths (fits : c.Fits n input s) (count : Nat) :
    Int64.ofNat count * c.paths = Int64.ofNat (count * n) := by
  -- The paths are counted by a machine integer, and products agree but for wrapping around.
  rw [fits.paths, Int64.ofNat_mul]

end Context.Fits

/-- Work on a borrowed block stops where the block is refused, or where the work stops. -/
theorem Host.ends_withTemp [Elem α] {h : Host α} (ready : h.Ready) (c : Context α View) {m : Nat}
    (positive : 0 < m) (small : m ≤ room) {body : Temp View → Action (Host α) WalkError Unit}
    {work : Int64 → Option WalkError} {region : Region} {property : Store α → Prop}
    (worked : ∃ t, Store.Changes region h.store t ∧
      (h.lend m).Ends (body (h.loan m)) t (work (h.lend m).liveElements) (property t)) :
    ∃ t, Store.Changes region h.store t ∧
      h.Ends (backend.withTemp (Int64.ofNat m) (.alloc (Int64.ofNat m)) body) t
        ((h.terms c).borrow h.liveElements (Int64.ofNat m) work) (property t) := by
  obtain ⟨t, changed, ends⟩ := worked
  cases limited : refusal h.limit h.liveElements (Int64.ofNat m) with
  | some cause =>
    -- Without the block nothing happens.
    refine ⟨h.store, .refl _ _, ?_⟩
    simp only [Terms.borrow, terms, limited]
    exact withTemp_refused positive small limited
  | none =>
    refine ⟨t, changed, ?_⟩
    simp only [Terms.borrow, terms, limited]
    change h.Ends _ t (work (h.lend m).liveElements) _
    -- However the work ends, the block is given back.
    cases stopped : work (h.lend m).liveElements with
    | some cause =>
      rw [stopped] at ends
      exact withTemp_error ready positive small limited ends
    | none =>
      rw [stopped] at ends
      exact ⟨withTemp_ok ready positive small limited ends.1, ends.2⟩

namespace Walk

/-- Memory amid a walk: only the registers changed in the blocks there were at its start. -/
structure Amid (c : Context α View) (n : Nat) (s : Store α) (h : Host α) : Prop where
  ready : h.Ready
  changed : Store.Changes (c.registers n) s h.store

/-- The registers show values and derivatives, path by path. -/
structure Leaves (c : Context α View) (n : Nat) (d : Nat → α × α) (t : Store α) : Prop where
  value : t.Shows c.value n (fun p => (d p).1)
  deriv : t.Shows c.deriv n (fun p => (d p).2)

/-- A walk over a tree leaves its duals in the registers, or stops at its defect. -/
def Visits [Elem α] (c : Context α View) (n : Nat) (input : Nat → String → α × α)
    (e : Expr α) : Prop :=
  ∀ h : Host α, h.Ready → c.Fits n input h.store → n * e.broadest ≤ Host.room →
    ∃ t, Store.Changes (c.registers n) h.store t ∧
      h.Ends (visit Host.backend c e) t (e.defect? (h.terms c) h.liveElements)
        (Leaves c n (fun p => e.dual (input p)) t)

section Steps

variable {c : Context α View} {n : Nat} {input : Nat → String → α × α} {s t : Store α} {h : Host α}

/-- Memory stays amid a walk while the registers change. -/
theorem Amid.registers (amid : Amid c n s h) (changed : Store.Changes (c.registers n) h.store t) :
    Amid c n s { h with store := t } :=
  -- The region is the same before and after.
  ⟨amid.ready.of_grown changed.grows, amid.changed.trans changed (fun _ _ _ inside => inside)⟩

/-- Memory stays amid a walk while views in new blocks change. -/
theorem Amid.views (amid : Amid c n s h) {views : List View} {m : Nat}
    (changed : Store.Changes (Store.spotsOf views m) h.store t)
    (new : ∀ v ∈ views, s.blocks.size ≤ v.block) : Amid c n s { h with store := t } :=
  -- Views in new blocks lie outside of what was there before.
  ⟨amid.ready.of_grown changed.grows, amid.changed.trans_new changed new⟩

/-- The spots of one view are those of the list that holds it alone. -/
theorem spotsOf_single {v : View} {m : Nat} (changed : Store.Changes (v.spots m) s t) :
    Store.Changes (Store.spotsOf [v] m) s t :=
  -- The view is in the list.
  changed.mono (fun _ _ inside => ⟨v, by simp, inside⟩)

end Steps

/-- An update of a target by what a source shows. -/
structure Update (α : Type) where
  source : View
  target : View
  operand : Nat → α

namespace Update

/-- Updates one after the other, and what follows them. -/
def chain (step : View → View → Action (Host α) WalkError Unit)
    (rest : Action (Host α) WalkError Unit) : List (Update α) → Action (Host α) WalkError Unit
  | [] => rest
  | u :: updates => do
    step u.source u.target
    chain step rest updates

/-- A chain may be cut anywhere. -/
theorem chain_append (step : View → View → Action (Host α) WalkError Unit)
    (rest : Action (Host α) WalkError Unit) (first second : List (Update α)) :
    chain step rest (first ++ second) = chain step (chain step rest second) first := by
  -- The second part is what follows the first.
  induction first with
  | nil => rfl
  | cons u updates ih => simp only [List.cons_append, chain, ih]

/-- A step that leaves its target combined with what its source shows. -/
def Combines (n : Nat) (op : α → α → α) (step : View → View → Action (Host α) WalkError Unit) :
    Prop :=
  ∀ {h : Host α} {src dst : View} {f g : Nat → α}, h.Ready → src.Apart dst n →
    h.store.Shows src n f → h.store.Shows dst n g →
    h.Leaves (step src dst) dst n (fun p => op (g p) (f p))

/-- Updates of targets apart from each other and from all sources leave every target combined. -/
theorem chain_combines [Elem α] {n : Nat} {op : α → α → α}
    {step : View → View → Action (Host α) WalkError Unit} (combines : Combines n op step)
    (rest : Action (Host α) WalkError Unit) (updates : List (Update α)) :
    ∀ h : Host α, h.Ready → (∀ u ∈ updates, h.store.Shows u.source n u.operand) →
      (∀ u ∈ updates, h.store.Reaches u.target n) →
      (∀ u ∈ updates, ∀ w ∈ updates, u.source.Apart w.target n) →
      updates.Pairwise (fun u w => u.target.Apart w.target n) →
      ∃ t, chain step rest updates h = rest { h with store := t } ∧
        Store.Changes (Store.spotsOf (updates.map (·.target)) n) h.store t ∧
        ∀ u ∈ updates, ∀ g, h.store.Shows u.target n g →
          t.Shows u.target n (fun p => op (g p) (u.operand p)) := by
  -- One update after the other; the store moves on, so the induction is for all memories.
  induction updates with
  | nil => exact fun h _ _ _ _ _ => ⟨h.store, rfl, .refl _ _, by simp⟩
  | cons u updates ih =>
    intro h ready sources targets clear separate
    obtain ⟨first, others⟩ := List.pairwise_cons.mp separate
    obtain ⟨g, shown⟩ := (targets u (by simp)).exists_shows
    obtain ⟨t, ran, changed, left⟩ :=
      combines ready (clear u (by simp) u (by simp)) (sources u (by simp)) shown
    have single := spotsOf_single changed
    -- The sources and the other targets are apart from the first target.
    obtain ⟨t', ran', changed', left'⟩ := ih { h with store := t } (ready.of_grown changed.grows)
      (fun w found => single.shows_apart (sources w (by simp [found]))
        (by simpa using clear w (by simp [found]) u (by simp)))
      (fun w found => changed.reaches (targets w (by simp [found])))
      (fun v found w found' => clear v (by simp [found]) w (by simp [found'])) others
    refine ⟨t', (Action.bind_ok ran).trans ran', ?_, fun w found g' shown' => ?_⟩
    · refine (single.mono ?_).trans changed' (fun block i _ ⟨v, found, inside⟩ =>
        ⟨v, List.mem_cons_of_mem _ found, inside⟩)
      exact fun block i ⟨v, found, inside⟩ => ⟨v, by simp_all, inside⟩
    · rcases List.mem_cons.mp found with rfl | found
      · -- The first target was combined with what it showed, and left alone afterwards.
        have same : ∀ p < n, g p = g' p := fun p below =>
          Option.some.inj ((shown.holds p below).symm.trans (shown'.holds p below))
        refine (changed'.shows_apart left (fun v listed => ?_)).congr
          (fun p below => by rw [same p below])
        obtain ⟨x, among, rfl⟩ := List.mem_map.mp listed
        exact first x among
      · -- A later target still showed the same when its turn came.
        exact left' w found g' (single.shows_apart shown'
          (by simpa using (first w found).symm))

end Update

end Walk

end Tangent
