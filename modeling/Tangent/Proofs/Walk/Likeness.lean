import Tangent.Proofs.Expr.Shape
import Tangent.Proofs.Vector.Backend
import Tangent.Walk

/-!
Two backends side by side.

A walk only calls its backend. Where two backends answer alike call by call, and lend their blocks
in the same order, the walk over a tree ends alike on both.
-/

namespace Tangent

variable {σ τ ε α β γ φ : Type}

/-- What a buffer is part of; blocks on loan are numbered from the outermost on. -/
inductive Area where
  | value
  | deriv
  | data (name : String)
  | block (depth : Nat)
deriving DecidableEq

/-- Registers and blocks are written to, input data is not. -/
def Area.Writable : Area → Prop
  | .data _ => False
  | _ => True

namespace Action

/-- Two computations both go through, and leave states that are related. -/
def Both (left : Action σ ε Unit) (right : Action τ ε Unit) (after : σ → τ → Prop)
    (s : σ) (t : τ) : Prop :=
  ∃ s' t', left s = .ok () s' ∧ right t = .ok () t' ∧ after s' t'

/-- Two computations both go through, or stop at errors that are alike. -/
def Alike (left : Action σ ε Unit) (right : Action τ ε Unit) (errors : ε → ε → Prop)
    (after : σ → τ → Prop) (s : σ) (t : τ) : Prop :=
  Both left right after s t ∨
    ∃ cause cause' s' t', left s = .error (.error cause) s' ∧
      right t = .error (.error cause') t' ∧ errors cause cause' ∧ after s' t'

variable {left rest : Action σ ε Unit} {right rest' : Action τ ε Unit} {errors : ε → ε → Prop}
  {middle after : σ → τ → Prop} {s : σ} {t : τ}

/-- Computations that go through are followed by their rests. -/
theorem Both.alike (both : Both left right middle s t)
    (next : ∀ s t, middle s t → Alike rest rest' errors after s t) :
    Alike (do left; rest) (do right; rest') errors after s t := by
  obtain ⟨s', t', ran, ran', related⟩ := both
  -- Whether the rests go through or stop, they start where the first steps ended.
  rcases next s' t' related with
    ⟨u, u', last, last', related⟩ | ⟨c, c', u, u', last, last', related⟩
  · exact .inl ⟨u, u', (bind_ok ran).trans last, (bind_ok ran').trans last', related⟩
  · exact .inr ⟨c, c', u, u', (bind_ok ran).trans last, (bind_ok ran').trans last', related⟩

/-- Computations that go through are followed by rests that do. -/
theorem Both.bind (both : Both left right middle s t)
    (next : ∀ s t, middle s t → Both rest rest' after s t) :
    Both (do left; rest) (do right; rest') after s t := by
  -- The states that the first parts leave are related, so the rests may follow.
  obtain ⟨s', t', ran, ran', related⟩ := both
  obtain ⟨u, u', last, last', related⟩ := next s' t' related
  exact ⟨u, u', (bind_ok ran).trans last, (bind_ok ran').trans last', related⟩

/-- Computations that end alike are followed by their rests, unless they stop. -/
theorem Alike.bind (first : Alike left right errors middle s t)
    (weaker : ∀ s t, middle s t → after s t)
    (next : ∀ s t, middle s t → Alike rest rest' errors after s t) :
    Alike (do left; rest) (do right; rest') errors after s t := by
  -- What stops takes nothing after it along.
  rcases first with both | ⟨cause, cause', s', t', stopped, stopped', alike, related⟩
  · exact both.alike next
  · exact .inr ⟨cause, cause', s', t', bind_error stopped, bind_error stopped', alike,
      weaker s' t' related⟩

/-- What comes out of computations that change nothing is passed on. -/
theorem Alike.given {κ κ' : Type} {get : Action σ ε κ} {get' : Action τ ε κ'}
    {use : κ → Action σ ε Unit} {use' : κ' → Action τ ε Unit} {x : κ} {y : κ'}
    (found : get s = .ok x s) (found' : get' t = .ok y t)
    (next : Alike (use x) (use' y) errors after s t) :
    Alike (get >>= use) (get' >>= use') errors after s t := by
  -- Neither computation is seen in the states that the rest starts from.
  unfold Alike Both at next ⊢
  rw [bind_ok found, bind_ok found']
  exact next

end Action

/-- Walk errors of one kind, whose refusals may be worded by different backends. -/
def WalkError.Alike (refused : AllocError → AllocError → Prop) : WalkError → WalkError → Prop
  | .alloc requested cause, .alloc requested' cause' =>
    requested = requested' ∧ refused cause cause'
  | cause, cause' => cause = cause'

/--
Two backends that answer alike.

States are related while the same blocks are on loan in both, the latest first, and as many more
loans are possible as a number says. Buffers are related when they stand for the same stretch of
an area. Each operation has to go through on both sides and keep the states related.
-/
structure Likeness (be : Backend σ WalkError α β) (be' : Backend τ WalkError α γ) (φ : Type) where
  /-- The largest block that has to be lent. -/
  top : Nat
  bounded : top < 2 ^ 63
  state : List φ → Nat → σ → τ → Prop
  /-- Stretches of at least so many elements. -/
  same : List φ → Area → Nat → β → γ → Prop
  /-- Blocks as they were lent. -/
  whole : φ → β → γ → Prop
  refused : AllocError → AllocError → Prop
  fewer : ∀ {Φ b s t}, state Φ (b + 1) s t → state Φ b s t
  shorter : ∀ {Φ area m n x y}, same Φ area m x y → n ≤ m → same Φ area n x y
  one : ∀ {Φ b s t area n x y} (op : Unary α), state Φ b s t → n ≤ top → same Φ area n x y →
    area.Writable →
    Action.Both (be.one op x (Int64.ofNat n)) (be'.one op y (Int64.ofNat n)) (state Φ b) s t
  two : ∀ {Φ b s t source target n x y v w} (op : Binary), state Φ b s t → n ≤ top →
    same Φ source n x v → same Φ target n y w → target.Writable → source ≠ target →
    Action.Both (be.two op x y (Int64.ofNat n)) (be'.two op v w (Int64.ofNat n)) (state Φ b) s t
  offset : ∀ {Φ b s t area m k x y}, state Φ b s t → m ≤ top → same Φ area m x y → k ≤ m →
    ∃ x' y', be.offset x (Int64.ofNat k) s = .ok x' s ∧ be'.offset y (Int64.ofNat k) t = .ok y' t ∧
      same Φ area (m - k) x' y'
  alloc : ∀ {Φ b s t m}, state Φ (b + 1) s t → 0 < m → m ≤ top →
    (∃ cause cause' s' t', be.alloc (Int64.ofNat m) s = .ok (.error cause) s' ∧
      be'.alloc (Int64.ofNat m) t = .ok (.error cause') t' ∧ refused cause cause' ∧
      state Φ b s' t') ∨
    ∃ loan x y s' t', be.alloc (Int64.ofNat m) s = .ok (.ok x) s' ∧
      be'.alloc (Int64.ofNat m) t = .ok (.ok y) t' ∧ whole loan x y ∧
      same (loan :: Φ) (.block Φ.length) m x y ∧ state (loan :: Φ) b s' t'
  free : ∀ {Φ b s t loan x y}, state (loan :: Φ) b s t → whole loan x y →
    Action.Both (be.free x) (be'.free y) (state Φ b) s t

namespace Likeness

variable {be : Backend σ WalkError α β} {be' : Backend τ WalkError α γ}

/-- Errors that are alike for two backends. -/
def errors (L : Likeness be be' φ) : WalkError → WalkError → Prop := WalkError.Alike L.refused

/-- Contexts over the same paths and names, whose buffers stand for the same areas. -/
structure Contexts (L : Likeness be be' φ) (c : Context α β) (c' : Context α γ) (n : Nat) :
    Prop where
  paths : c.paths = Int64.ofNat n
  paths' : c'.paths = Int64.ofNat n
  positive : 0 < n
  small : n ≤ L.top
  value : ∀ Φ, L.same Φ .value n c.value c'.value
  deriv : ∀ Φ, L.same Φ .deriv n c.deriv c'.deriv
  bound : ∀ name, (c.bindings.find? name = none ∧ c'.bindings.find? name = none) ∨
    ∃ b b', c.bindings.find? name = some b ∧ c'.bindings.find? name = some b' ∧
      b.seed = b'.seed ∧ ∀ Φ, L.same Φ (.data name) n b.data b'.data

variable {L : Likeness be be' φ} {c : Context α β} {c' : Context α γ} {n : Nat} {Φ : List φ}
  {s : σ} {t : τ}

/-- States in which more loans are possible allow fewer. -/
theorem state_mono {b b' : Nat} (related : L.state Φ b' s t) (fewer : b ≤ b') :
    L.state Φ b s t := by
  -- Possible loans are given up one by one.
  induction fewer with
  | refl => exact related
  | step _ ih => exact ih (L.fewer related)

/-- Work on a borrowed block, with more loans in it, ends alike when it does so on the blocks. -/
theorem withTemp_alike {b more m : Nat} (related : L.state Φ (b + more + 1) s t) (positive : 0 < m)
    (small : m ≤ L.top) {body : Temp β → Action σ WalkError Unit}
    {body' : Temp γ → Action τ WalkError Unit}
    (worked : ∀ loan x y s t, L.state (loan :: Φ) (b + more) s t →
      L.same (loan :: Φ) (.block Φ.length) m x y →
      Action.Alike (body ⟨x, Int64.ofNat m, false⟩) (body' ⟨y, Int64.ofNat m, false⟩) L.errors
        (L.state (loan :: Φ) b) s t) :
    Action.Alike (be.withTemp (Int64.ofNat m) (.alloc (Int64.ofNat m)) body)
      (be'.withTemp (Int64.ofNat m) (.alloc (Int64.ofNat m)) body') L.errors (L.state Φ b) s t := by
  rcases L.alloc related positive small with
    ⟨cause, cause', u, u', asked, asked', refused, related⟩ |
    ⟨loan, x, y, u, u', lent, lent', whole, block, related⟩
  · -- Both are refused the block, and nothing was done.
    have ran : be.acquire (Int64.ofNat m) s = .ok (.error cause) u := Action.bind_ok asked
    have ran' : be'.acquire (Int64.ofNat m) t = .ok (.error cause') u' := Action.bind_ok asked'
    exact .inr ⟨.alloc (Int64.ofNat m) cause, .alloc (Int64.ofNat m) cause', u, u',
      Action.bind_ok ran, Action.bind_ok ran', ⟨rfl, refused⟩,
      state_mono related (by omega)⟩
  · have ran : be.acquire (Int64.ofNat m) s = .ok (.ok ⟨x, Int64.ofNat m, false⟩) u :=
      Action.bind_ok lent
    have ran' : be'.acquire (Int64.ofNat m) t = .ok (.ok ⟨y, Int64.ofNat m, false⟩) u' :=
      Action.bind_ok lent'
    -- However the work ends, both give the block back.
    rcases worked loan x y u u' related block with
      ⟨w, w', worked, worked', related⟩ | ⟨cause, cause', w, w', stopped, stopped', alike, related⟩
    · obtain ⟨z, z', freed, freed', related⟩ := L.free related whole
      exact .inl ⟨z, z', (Action.bind_ok ran).trans (Action.closing_ok worked freed),
        (Action.bind_ok ran').trans (Action.closing_ok worked' freed'), related⟩
    · obtain ⟨z, z', freed, freed', related⟩ := L.free related whole
      exact .inr ⟨cause, cause', z, z',
        (Action.bind_ok ran).trans (Action.closing_error stopped freed),
        (Action.bind_ok ran').trans (Action.closing_error stopped' freed'), alike, related⟩

/-- A stretch inside a borrowed block is the same stretch of both blocks. -/
theorem slot_alike (ctx : L.Contexts c c' n) {b m i : Nat} {area : Area} {x : β} {y : γ}
    (related : L.state Φ b s t) (block : L.same Φ area m x y) (small : m ≤ L.top)
    (inside : (i + 1) * n ≤ m) :
    ∃ x' y', be.slot ⟨x, Int64.ofNat m, false⟩ (Int64.ofNat i) c.paths s = .ok x' s ∧
      be'.slot ⟨y, Int64.ofNat m, false⟩ (Int64.ofNat i) c'.paths t = .ok y' t ∧
      L.same Φ area n x' y' := by
  -- On both sides a stretch inside the block is the rest of the block, cut to its paths.
  have bounded : m < 2 ^ 63 := Nat.lt_of_le_of_lt small L.bounded
  have whole : (i + 1) * n = i * n + n := Nat.succ_mul i n
  obtain ⟨x', y', found, found', stretch⟩ := L.offset related small block (by omega : i * n ≤ m)
  rw [ctx.paths, ctx.paths', be.slot_inside x ctx.positive inside bounded,
    be'.slot_inside y ctx.positive inside bounded]
  exact ⟨x', y', found, found', L.shorter stretch (by omega)⟩

/-- Stretches that follow each other are the same stretches of both blocks. -/
theorem slots_alike (ctx : L.Contexts c c' n) {b m : Nat} {area : Area} {x : β} {y : γ}
    (related : L.state Φ b s t) (block : L.same Φ area m x y) (small : m ≤ L.top) (count : Nat) :
    ∀ i, (i + count) * n ≤ m →
      ∃ xs ys, be.slots ⟨x, Int64.ofNat m, false⟩ c.paths (Int64.ofNat i) count s = .ok xs s ∧
        be'.slots ⟨y, Int64.ofNat m, false⟩ c'.paths (Int64.ofNat i) count t = .ok ys t ∧
        List.Forall₂ (L.same Φ area n) xs ys := by
  -- The stretches are found one after the other, and finding them changes nothing.
  induction count with
  | zero => exact fun i _ => ⟨[], [], rfl, rfl, .nil⟩
  | succ count ih =>
    intro i inside
    obtain ⟨x', y', found, found', first⟩ := slot_alike ctx related block small
      (Nat.le_trans (Nat.mul_le_mul_right n (by omega)) inside : (i + 1) * n ≤ m)
    obtain ⟨xs, ys, others, others', rest⟩ :=
      ih (i + 1) (by rw [Nat.add_assoc, Nat.add_comm 1 count]; exact inside)
    rw [Int64.ofNat_add, show Int64.ofNat 1 = 1 from rfl] at others others'
    refine ⟨x' :: xs, y' :: ys, ?_, ?_, .cons first rest⟩
    · rw [Backend.slots, Action.bind_ok found, Action.bind_ok others]
      rfl
    · rw [Backend.slots, Action.bind_ok found', Action.bind_ok others']
      rfl

section Steps

variable {b : Nat} {source target : Area} {x y : β} {v w : γ}

/-- An operation on all paths of one buffer goes through on both sides. -/
theorem one_paths (ctx : L.Contexts c c' n) (op : Unary α) (related : L.state Φ b s t)
    (dst : L.same Φ target n x v) (writable : target.Writable) :
    Action.Both (be.one op x c.paths) (be'.one op v c'.paths) (L.state Φ b) s t := by
  -- Both contexts count the paths with the same integer.
  rw [ctx.paths, ctx.paths']
  exact L.one op related ctx.small dst writable

/-- An operation on all paths of two buffers goes through on both sides. -/
theorem two_paths (ctx : L.Contexts c c' n) (op : Binary) (related : L.state Φ b s t)
    (src : L.same Φ source n x v) (dst : L.same Φ target n y w) (writable : target.Writable)
    (apart : source ≠ target) :
    Action.Both (be.two op x y c.paths) (be'.two op v w c'.paths) (L.state Φ b) s t := by
  -- Both contexts count the paths with the same integer.
  rw [ctx.paths, ctx.paths']
  exact L.two op related ctx.small src dst writable apart

/-- Writing a constant goes through on both sides. -/
theorem set_paths [Elem α] (ctx : L.Contexts c c' n) (value : α) (related : L.state Φ b s t)
    (dst : L.same Φ target n x v) (writable : target.Writable) :
    Action.Both (be.set x value c.paths) (be'.set v value c'.paths) (L.state Φ b) s t := by
  -- Which operation it is depends on the constant, not on the side.
  rw [Backend.set_eq_one, Backend.set_eq_one]
  exact one_paths ctx _ related dst writable

/-- The same buffers are multiplied by a source on both sides. -/
theorem mulEach_both (ctx : L.Contexts c c' n) (src : L.same Φ source n x v) {xs : List β}
    {ys : List γ} (each : List.Forall₂ (L.same Φ target n) xs ys) (writable : target.Writable)
    (apart : source ≠ target) :
    ∀ s t, L.state Φ b s t →
      Action.Both (Walk.mulEach be x c.paths xs) (Walk.mulEach be' v c'.paths ys) (L.state Φ b)
        s t := by
  -- The buffers come in pairs, and each pair is worked on alike.
  induction each with
  | nil => exact fun s t related => ⟨s, t, rfl, rfl, related⟩
  | cons first _ ih =>
    intro s t related
    exact (two_paths ctx .mul related src first writable apart).bind ih

/-- The same sources are added to a buffer on both sides. -/
theorem addEach_both (ctx : L.Contexts c c' n) (dst : L.same Φ target n y w) {xs : List β}
    {ys : List γ} (each : List.Forall₂ (L.same Φ source n) xs ys) (writable : target.Writable)
    (apart : source ≠ target) :
    ∀ s t, L.state Φ b s t →
      Action.Both (Walk.addEach be y c.paths xs) (Walk.addEach be' w c'.paths ys) (L.state Φ b)
        s t := by
  -- The sources come in pairs, and each pair is added alike.
  induction each with
  | nil => exact fun s t related => ⟨s, t, rfl, rfl, related⟩
  | cons first _ ih =>
    intro s t related
    exact (two_paths ctx .add related first dst writable apart).bind ih

/-- The same partial products are summed on both sides. -/
theorem sumPartials_both (ctx : L.Contexts c c' n) (related : L.state Φ b s t)
    (dst : L.same Φ target n y w) {xs : List β} {ys : List γ}
    (each : List.Forall₂ (L.same Φ source n) xs ys) (writable : target.Writable)
    (apart : source ≠ target) :
    Action.Both (Walk.sumPartials be y c.paths xs) (Walk.sumPartials be' w c'.paths ys)
      (L.state Φ b) s t := by
  -- The first partial product is copied, and the others are added to it.
  cases each with
  | nil => exact ⟨s, t, rfl, rfl, related⟩
  | cons first rest =>
    exact (two_paths ctx .copy related first dst writable apart).bind
      (addEach_both ctx dst rest writable apart)

end Steps

section Trees

variable [Elem α]

/-- A tree whose walks end alike from any related states. -/
def Visits (L : Likeness be be' φ) (c : Context α β) (c' : Context α γ) (n : Nat) (e : Expr α) :
    Prop :=
  ∀ {Φ b s t}, L.state Φ (b + e.blocks) s t → n * e.broadest ≤ L.top →
    Action.Alike (Walk.visit be c e) (Walk.visit be' c' e) L.errors (L.state Φ b) s t

/-- Sums are collected alike on both sides. -/
theorem visitSum_alike (ctx : L.Contexts c c' n) {depth : Nat} {value deriv : β}
    {value' deriv' : γ} (sameValue : L.same Φ (.block depth) n value value')
    (sameDeriv : L.same Φ (.block depth) n deriv deriv') (operands : List (Expr α)) :
    ∀ b s t, L.state Φ (b + Expr.blocksOf operands) s t →
      (∀ e ∈ operands, L.Visits c c' n e) → n * Expr.broadestOf operands ≤ L.top →
      Action.Alike (Walk.visitSum be c value deriv operands)
        (Walk.visitSum be' c' value' deriv' operands) L.errors (L.state Φ b) s t := by
  -- The loans of an operand are used up in its walk, those of the others remain.
  induction operands with
  | nil => exact fun b s t related _ _ => .inl ⟨s, t, rfl, rfl, related⟩
  | cons e rest ih =>
    intro b s t related visits small
    obtain ⟨smallHead, smallRest⟩ := Expr.broadestOf_cons_le small
    rw [Expr.blocksOf, Nat.add_comm e.blocks, ← Nat.add_assoc] at related
    refine (visits e (by simp) related smallHead).bind
      (fun s t related => state_mono related (by omega)) (fun s t related => ?_)
    -- The registers are no part of the block, so they are added to both sums.
    refine (two_paths ctx .add related (ctx.value Φ) sameValue trivial (by simp)).alike
      (fun s t related => ?_)
    refine (two_paths ctx .add related (ctx.deriv Φ) sameDeriv trivial (by simp)).alike
      (fun s t related => ?_)
    exact ih b s t related (fun e found => visits e (by simp [found])) smallRest

/-- Products are collected alike on both sides. -/
theorem visitProduct_alike (ctx : L.Contexts c c' n) {depth : Nat} {value : β} {value' : γ}
    (sameValue : L.same Φ (.block depth) n value value') (operands : List (Expr α)) :
    ∀ b s t before before' after after',
      List.Forall₂ (L.same Φ (.block depth) n) before before' →
      List.Forall₂ (L.same Φ (.block depth) n) after after' →
      L.state Φ (b + Expr.blocksOf operands) s t →
      (∀ e ∈ operands, L.Visits c c' n e) → n * Expr.broadestOf operands ≤ L.top →
      Action.Alike (Walk.visitProduct be c value before after operands)
        (Walk.visitProduct be' c' value' before' after' operands) L.errors (L.state Φ b) s t := by
  induction operands with
  | nil => exact fun b s t _ _ _ _ _ _ related _ _ => .inl ⟨s, t, rfl, rfl, related⟩
  | cons e rest ih =>
    intro b s t before before' after after' sameBefore sameAfter related visits small
    obtain ⟨smallHead, smallRest⟩ := Expr.broadestOf_cons_le small
    rw [Expr.blocksOf, Nat.add_comm e.blocks, ← Nat.add_assoc] at related
    refine (visits e (by simp) related smallHead).bind
      (fun s t related => state_mono related (by omega)) (fun s t related => ?_)
    refine (two_paths ctx .mul related (ctx.value Φ) sameValue trivial (by simp)).alike
      (fun s t related => ?_)
    cases sameAfter with
    | nil =>
      -- Without a stretch for the factor both walks end here.
      exact .inl ⟨s, t, rfl, rfl, state_mono related (by omega)⟩
    | cons own others =>
      refine (two_paths ctx .mul related (ctx.deriv Φ) own trivial (by simp)).alike
        (fun s t related => ?_)
      refine (mulEach_both ctx (ctx.value Φ) sameBefore trivial (by simp) s t related).alike
        (fun s t related => ?_)
      refine (mulEach_both ctx (ctx.value Φ) others trivial (by simp) s t related).alike
        (fun s t related => ?_)
      -- The stretch of the factor joins those behind it.
      exact ih b s t _ _ _ _ (List.rel_append sameBefore (.cons own .nil)) others related
        (fun e found => visits e (by simp [found])) smallRest

omit [Elem α] in
/-- The elements of a number of stretches, counted by machine integers on both sides. -/
theorem mul_paths (ctx : L.Contexts c c' n) (count : Nat) :
    Int64.ofNat count * c.paths = Int64.ofNat (count * n) ∧
      Int64.ofNat count * c'.paths = Int64.ofNat (count * n) := by
  -- Both contexts count the paths with the same integer.
  rw [ctx.paths, ctx.paths', Int64.ofNat_mul]
  exact ⟨rfl, rfl⟩

/-- The block of a sum is borrowed, worked on and given back alike on both sides. -/
theorem visits_add (ctx : L.Contexts c c' n) {operands : List (Expr α)}
    (each : ∀ e ∈ operands, L.Visits c c' n e) : L.Visits c c' n (.add operands) := by
  intro Φ b s t related small
  rw [Expr.blocks, ← Nat.add_assoc] at related
  cases empty : operands.isEmpty with
  | true =>
    -- Neither side borrows anything for a sum without operands.
    simp only [Walk.visit, empty, if_true]
    exact .inr ⟨.noOperands .add, .noOperands .add, s, t, rfl, rfl, rfl,
      state_mono related (by omega)⟩
  | false =>
    obtain ⟨block, below⟩ := Expr.broadest_add_le empty small
    have size : 2 * c.paths = Int64.ofNat (2 * n) := (mul_paths ctx 2).1
    have size' : 2 * c'.paths = Int64.ofNat (2 * n) := (mul_paths ctx 2).2
    have positive := ctx.positive
    simp only [Walk.visit, empty, Bool.false_eq_true, if_false, size, size']
    refine withTemp_alike related (by omega) block (fun loan x y s t related whole => ?_)
    -- The two stretches of the block hold the sum of values and that of derivatives.
    obtain ⟨v, v', value, value', sameValue⟩ :=
      slot_alike (i := 0) ctx related whole block (by omega)
    obtain ⟨d, d', deriv, deriv', sameDeriv⟩ :=
      slot_alike (i := 1) ctx related whole block (by omega)
    refine .given value value' (.given deriv deriv' ?_)
    refine (L.one .zero related block whole trivial).alike (fun s t related => ?_)
    refine (visitSum_alike ctx sameValue sameDeriv operands b s t related each below).bind
      (fun _ _ related => related) (fun s t related => ?_)
    refine (two_paths ctx .copy related sameValue (ctx.value _) trivial (by simp)).alike
      (fun s t related => .inl ?_)
    exact two_paths ctx .copy related sameDeriv (ctx.deriv _) trivial (by simp)

/-- The block of a product is borrowed, worked on and given back alike on both sides. -/
theorem visits_mul (ctx : L.Contexts c c' n) {operands : List (Expr α)}
    (each : ∀ e ∈ operands, L.Visits c c' n e) : L.Visits c c' n (.mul operands) := by
  intro Φ b s t related small
  rw [Expr.blocks, ← Nat.add_assoc] at related
  cases empty : operands.isEmpty with
  | true =>
    -- Neither side borrows anything for a product without factors.
    simp only [Walk.visit, empty, if_true]
    exact .inr ⟨.noOperands .mul, .noOperands .mul, s, t, rfl, rfl, rfl,
      state_mono related (by omega)⟩
  | false =>
    obtain ⟨block, below⟩ := Expr.broadest_mul_le empty small
    obtain ⟨size, size'⟩ := mul_paths ctx (operands.length + 1)
    rw [Int64.ofNat_add, show Int64.ofNat 1 = 1 from rfl] at size size'
    simp only [Walk.visit, empty, Bool.false_eq_true, if_false, size, size']
    refine withTemp_alike related (Nat.mul_pos (by omega) ctx.positive) block
      (fun loan x y s t related whole => ?_)
    -- The first stretch of the block holds the product, the others its partial products.
    obtain ⟨v, v', value, value', sameValue⟩ :=
      slot_alike (i := 0) ctx related whole block (Nat.mul_le_mul_right n (by omega))
    obtain ⟨ds, ds', partials, partials', samePartials⟩ :=
      slots_alike ctx related whole block operands.length 1 (Nat.mul_le_mul_right n (by omega))
    refine .given value value' (.given partials partials' ?_)
    refine (L.one (.fill Elem.one) related block whole trivial).alike (fun s t related => ?_)
    refine (visitProduct_alike ctx sameValue operands b s t [] [] ds ds' .nil samePartials related
      each below).bind (fun _ _ related => related) (fun s t related => ?_)
    refine (sumPartials_both ctx related (ctx.deriv _) samePartials trivial (by simp)).alike
      (fun s t related => .inl ?_)
    exact two_paths ctx .copy related sameValue (ctx.value _) trivial (by simp)

/-- The walk over a tree ends alike on two backends that answer alike. -/
theorem visit_alike (ctx : L.Contexts c c' n) (e : Expr α) : L.Visits c c' n e := by
  induction e using Expr.induction with
  | const value =>
    intro Φ b s t related small
    refine (set_paths ctx value related (ctx.value Φ) trivial).alike (fun s t related => .inl ?_)
    exact one_paths ctx .zero related (ctx.deriv Φ) trivial
  | var name =>
    intro Φ b s t related small
    rcases ctx.bound name with ⟨free, free'⟩ | ⟨own, own', found, found', seed, data⟩
    · -- A name is unbound on both sides or on none.
      have unbound : c.lookup name = .error (.unbound name) := by rw [Context.lookup, free]
      have unbound' : c'.lookup name = .error (.unbound name) := by rw [Context.lookup, free']
      rw [Walk.visit, Walk.visit, unbound, unbound']
      exact .inr ⟨.unbound name, .unbound name, s, t, rfl, rfl, rfl, related⟩
    · have bound : c.lookup name = .ok own := by rw [Context.lookup, found]
      have bound' : c'.lookup name = .ok own' := by rw [Context.lookup, found']
      rw [Walk.visit, Walk.visit, bound, bound']
      -- The data is copied, and then the seed is written, as the constant that it is.
      refine .given rfl rfl ?_
      refine (two_paths ctx .copy related (data Φ) (ctx.value Φ) trivial (by simp)).alike
        (fun s t related => .inl ?_)
      rw [seed]
      exact set_paths ctx own'.seed related (ctx.deriv Φ) trivial
  | add operands ih => exact visits_add ctx ih
  | mul operands ih => exact visits_mul ctx ih
  | exp exponent ih =>
    intro Φ b s t related small
    refine (ih related small).bind (fun _ _ related => related) (fun s t related => ?_)
    refine (one_paths ctx .exp related (ctx.value Φ) trivial).alike (fun s t related => .inl ?_)
    exact two_paths ctx .mul related (ctx.value Φ) (ctx.deriv Φ) trivial (by simp)
  | hole =>
    intro Φ b s t related _
    exact .inr ⟨.emptyPlace, .emptyPlace, s, t, rfl, rfl, rfl, related⟩
  | unset kind =>
    intro Φ b s t related _
    exact .inr ⟨.emptyPlace, .emptyPlace, s, t, rfl, rfl, rfl, related⟩

/-- A whole walk ends alike on two backends that answer alike. -/
theorem generate_alike (ctx : L.Contexts c c' n) (root : Expr α)
    (related : L.state Φ root.blocks s t) (small : n * root.broadest ≤ L.top) :
    Action.Alike (Walk.generate be c root) (Walk.generate be' c' root) L.errors (L.state Φ 0)
      s t := by
  -- Both contexts have paths, which is all that is checked before the walk.
  have positive : ¬ Int64.ofNat n ≤ 0 :=
    ofNat_pos ctx.positive (Nat.lt_of_le_of_lt ctx.small L.bounded)
  rw [Walk.generate, Walk.generate, Context.validate, Context.validate, ctx.paths, ctx.paths',
    if_neg positive]
  exact .given rfl rfl (visit_alike ctx root (by rwa [Nat.zero_add]) small)

end Trees

end Likeness

end Tangent
