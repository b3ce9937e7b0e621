import Tangent.Proofs.Program.Sizes
import Tangent.Proofs.Walk.Idle
import Tangent.Proofs.Walk.PerPath

/-!
The first offence in a tree decides how a walk over it ends.

Memory and recorders without a limit answer a walk as if they were idle, so nothing but the tree
and the bound names can stop it. The check of a tree ranks its flaws in the same order.
-/

namespace Tangent

variable {σ α β φ ν : Type}

/-- All buffers of a context are as they should be. -/
structure Context.Each (c : Context α β) (proper : β → Prop) : Prop where
  value : proper c.value
  deriv : proper c.deriv
  data : ∀ name b, c.bindings.find? name = some b → proper b.data

/-- Loans on top of others, each under a number that none below it has. -/
def Stacked (base : List (ν × Int64)) : List (ν × Int64) → List (ν × Int64) → Prop
  | [], live => live = base
  | loan :: rest, live => ∃ below, live = loan :: below ∧
      (∀ entry ∈ below, entry.1 ≠ loan.1) ∧ Stacked base rest below

/-- What is on loan are the loans and what they are on top of. -/
theorem Stacked.eq {base Φ live : List (ν × Int64)} (stacked : Stacked base Φ live) :
    live = Φ ++ base := by
  -- The loans lie on each other, the latest one in front.
  induction Φ generalizing live with
  | nil => exact stacked
  | cons loan rest ih =>
    obtain ⟨below, rfl, _, others⟩ := stacked
    rw [ih others, List.cons_append]

namespace Host

variable {base Φ : List (Nat × Int64)} {h : Host α}

/-- Memory without a limit, with loans on top of those that were there. -/
structure Yields (base Φ : List (Nat × Int64)) (h : Host α) : Prop where
  unlimited : h.limit ≤ 0
  numbered : h.Numbered
  stacked : Stacked base Φ h.live

/-- Work on buffers changes no loan. -/
theorem Yields.afterChunks (yields : h.Yields base Φ) (n : Int64)
    {step : Nat → Nat → Store α → Store α}
    (still : ∀ lo len s, (step lo len s).blocks.size = s.blocks.size) :
    (h.afterChunks n step).Yields base Φ := by
  -- The store has as many blocks as before, so the loans keep their places in it.
  refine ⟨yields.unlimited, fun entry listed => ?_, yields.stacked⟩
  rw [size_afterChunks h n still]
  exact yields.numbered entry listed

/-- A block goes on top of the others. -/
theorem Yields.lend (yields : h.Yields base Φ) (m : Nat) :
    (h.lend m).Yields base ((h.store.blocks.size, Int64.ofNat m) :: Φ) where
  -- The new block has a number that no loan has yet.
  unlimited := yields.unlimited
  numbered := yields.numbered.lend m
  stacked := ⟨h.live, rfl, fun entry listed => Nat.ne_of_lt (yields.numbered entry listed),
    yields.stacked⟩

variable [Elem α] {n m k : Nat} {x : View}

/-- An operation on one buffer goes through, and changes no loan. -/
theorem Yields.one (yields : h.Yields base Φ) (op : Unary α) (small : n ≤ room)
    (long : n ≤ x.length) :
    ∃ h', (backend.one op x (Int64.ofNat n) : Action (Host α) ε Unit) h = .ok () h' ∧
      h'.Yields base Φ := by
  -- That a buffer is long enough is all that memory asks for.
  have enough : (Int64.ofNat n).toInt ≤ x.length := by
    rw [toInt_ofNat_of_le_room small]
    exact_mod_cast long
  exact ⟨_, one_ok op enough h, yields.afterChunks _ (op.size_onRange x)⟩

/-- An operation on two buffers goes through, and changes no loan. -/
theorem Yields.two {y : View} (yields : h.Yields base Φ) (op : Binary) (small : n ≤ room)
    (long : n ≤ x.length) (long' : n ≤ y.length) :
    ∃ h', (backend.two op x y (Int64.ofNat n) : Action (Host α) ε Unit) h = .ok () h' ∧
      h'.Yields base Φ := by
  -- Both buffers are long enough, and memory asks for no more.
  have enough : (Int64.ofNat n).toInt ≤ x.length ∧ (Int64.ofNat n).toInt ≤ y.length := by
    rw [toInt_ofNat_of_le_room small]
    exact ⟨by exact_mod_cast long, by exact_mod_cast long'⟩
  exact ⟨_, two_ok op enough.1 enough.2 h, yields.afterChunks _ (op.size_onRange x y)⟩

/-- What is left of a buffer is shorter by what was passed over. -/
theorem offset_long (small : m ≤ room) (long : m ≤ x.length) (inside : k ≤ m) :
    ∃ x', (backend.offset x (Int64.ofNat k) : Action (Host α) ε View) h = .ok x' h ∧
      m - k ≤ x'.length := by
  -- The elements that are passed over can be counted.
  have bounded := lt_of_le_room small
  refine ⟨x.drop k, offset_ok (by omega) (by omega) h, ?_⟩
  exact Nat.sub_le_sub_right long k

/-- A block of every proper size is lent. -/
theorem Yields.alloc (yields : h.Yields base Φ) (positive : 0 < m) (small : m ≤ room) :
    ∃ h', (backend.alloc (Int64.ofNat m) : Action (Host α) ε _) h =
        .ok (.ok (h.nextBlock m)) h' ∧
      h'.Yields base ((h.store.blocks.size, Int64.ofNat m) :: Φ) := by
  -- The size is proper, and no limit stands against it.
  have lent : (backend.alloc (Int64.ofNat m) : Action (Host α) ε _) h = _ :=
    alloc_granted positive small (refusal_eq_none yields.unlimited _ _)
  exact ⟨_, lent, yields.lend m⟩

/-- The latest loan is taken back. -/
theorem Yields.free (yields : h.Yields base ((x.block, Int64.ofNat x.length) :: Φ))
    (start : x.start = 0) (nonempty : 0 < x.length) :
    ∃ h', (backend.free x : Action (Host α) ε Unit) h = .ok () h' ∧ h'.Yields base Φ := by
  obtain ⟨below, lent, apart, stacked⟩ := yields.stacked
  -- The loan is the latest one, and goes without another one.
  refine ⟨_, free_latest start nonempty lent apart, yields.unlimited, ?_, stacked⟩
  intro entry listed
  exact yields.numbered entry (lent ▸ List.mem_cons_of_mem _ listed)

/-- Memory without a limit answers a walk as if it were idle. -/
def likeIdle (base : List (Nat × Int64)) :
    Likeness (backend : Backend (Host α) WalkError α View) Backend.idle (Nat × Int64) where
  top := room
  bounded := room_lt
  state Φ _ h _ := h.Yields base Φ
  same _ _ n x _ := n ≤ x.length
  whole loan x _ := loan = (x.block, Int64.ofNat x.length) ∧ x.start = 0 ∧ 0 < x.length
  refused _ _ := False
  fewer yields := yields
  shorter long fewer := Nat.le_trans fewer long
  one op yields small long _ := by
    obtain ⟨h', ran, kept⟩ := yields.one op small long
    exact ⟨h', (), ran, Walk.idle_one op _, kept⟩
  two op yields small long long' _ _ := by
    obtain ⟨h', ran, kept⟩ := yields.two op small long long'
    exact ⟨h', (), ran, Walk.idle_two op _, kept⟩
  offset := by
    intro Φ b h _ area m k x _ _ small long inside
    obtain ⟨x', ran, rest⟩ := offset_long (h := h) small long inside
    exact ⟨x', (), ran, rfl, rest⟩
  alloc yields positive small := by
    obtain ⟨h', lent, kept⟩ := yields.alloc positive small
    exact .inr ⟨_, _, (), h', (), lent, rfl, ⟨rfl, rfl, positive⟩, Nat.le_refl _, kept⟩
  free := by
    rintro Φ b h _ loan x _ yields ⟨rfl, start, nonempty⟩
    obtain ⟨h', ran, kept⟩ := yields.free start nonempty
    exact ⟨h', (), ran, rfl, kept⟩

end Host

namespace Recorder

variable {base Φ : TempTable Int64}

/-- A recorder without a limit that can number more temporaries, on top of those it had. -/
structure Yields (base Φ : TempTable Int64) (more : Nat) (r : Recorder α) : Prop where
  unlimited : r.limit ≤ 0
  fresh : r.Fresh more
  stacked : Stacked base Φ r.live

/-- An operand that could be used can be used while more temporaries are live. -/
theorem usable_append {x : Ref} (usable : x.Usable base) : x.Usable (Φ ++ base) := by
  -- A temporary of the operand is found below the later ones.
  intro temp
  have known := usable temp
  simp only [TempTable.find?, Option.isSome_map, List.find?_append, Option.isSome_or] at known ⊢
  rw [known, Bool.or_true]

variable {r : Recorder α} {more : Nat} {x : Ref}

/-- Fewer temporaries can be numbered where more can. -/
theorem Yields.fewer (yields : r.Yields base Φ (more + 1)) : r.Yields base Φ more :=
  -- The number of the next temporary only has to stay below a smaller bound.
  { yields with fresh := ⟨Nat.lt_of_succ_lt yields.fresh.1, yields.fresh.2⟩ }

/-- An operand that can be used is found to be there. -/
theorem Yields.use (yields : r.Yields base Φ more) (usable : x.Usable (Φ ++ base)) :
    (Recorder.use x : Action (Recorder α) ε Unit) r = .ok () r :=
  -- What is live are the loans on top of what was there.
  use_usable (yields.stacked.eq ▸ usable)

/-- One more instruction changes no temporary. -/
theorem Yields.record (yields : r.Yields base Φ more) (i : Instr α) :
    (r.record i).Yields base Φ more :=
  -- The instruction is written down beside them.
  ⟨yields.unlimited, yields.fresh, yields.stacked⟩

/-- A temporary of every proper size begins, and can be used. -/
theorem Yields.alloc [Elem α] (yields : r.Yields base Φ (more + 1)) {m : Nat} (positive : 0 < m)
    (small : m < 2 ^ 63) :
    (backend.alloc (Int64.ofNat m) : Action (Recorder α) ε _) r =
        .ok (.ok ⟨.temp, r.nextTemp, 0⟩) (r.opened (Int64.ofNat m)) ∧
      (r.opened (Int64.ofNat m)).Yields base ((r.nextTemp, Int64.ofNat m) :: Φ) more := by
  -- The limit is looked at before anything is added up.
  have within : ¬ (r.limit > 0 && r.liveElements + Int64.ofNat m > r.limit) = true := by
    simp [Int64.not_lt.mpr yields.unlimited]
  have live : (r.opened (Int64.ofNat m)).live = (r.nextTemp, Int64.ofNat m) :: r.live :=
    congrArg ((r.nextTemp, Int64.ofNat m) :: ·) yields.fresh.absent
  exact ⟨alloc_granted (ofNat_pos positive small) within, yields.unlimited, yields.fresh.opened _,
    r.live, live, yields.fresh.apart, yields.stacked⟩

/-- The latest temporary ends. -/
theorem Yields.free [Elem α] {loan : Int64 × Int64} (yields : r.Yields base (loan :: Φ) more) :
    ∃ r', (backend.free ⟨.temp, loan.1, 0⟩ : Action (Recorder α) ε Unit) r = .ok () r' ∧
      r'.Yields base Φ more := by
  obtain ⟨below, lent, apart, stacked⟩ := yields.stacked
  -- The temporary is in front of the others, and no other one has its number.
  have found : r.live.find? loan.1 = some loan.2 := by simp [lent, TempTable.find?]
  have erased : r.live.erase loan.1 = below := by
    rw [lent, TempTable.erase, List.filter_cons_of_neg (by simp)]
    exact List.filter_eq_self.mpr (fun entry listed => by simpa using apart entry listed)
  refine ⟨_, free_live found, yields.unlimited,
    ⟨yields.fresh.1, fun entry listed => yields.fresh.2 entry ?_⟩, ?_⟩
  · exact List.mem_of_mem_filter listed
  · show Stacked base Φ (r.live.erase loan.1)
    rw [erased]
    exact stacked

/-- A recorder without a limit answers a walk as if it were idle. -/
def likeIdle [Elem α] (base : TempTable Int64) :
    Likeness (backend : Backend (Recorder α) WalkError α Ref) Backend.idle (Int64 × Int64) where
  top := 2 ^ 63 - 1
  bounded := Nat.sub_one_lt (Nat.two_pow_pos 63).ne'
  state Φ more r _ := r.Yields base Φ more
  same Φ _ _ x _ := x.Usable (Φ ++ base)
  whole loan x _ := x = ⟨.temp, loan.1, 0⟩
  refused _ _ := False
  fewer yields := yields.fewer
  shorter usable _ := usable
  one := by
    intro Φ b r _ area n x _ op yields _ usable _
    -- The instruction is written down once its operand was found to be there.
    have used := yields.use (ε := WalkError) usable
    refine ⟨r.record (op.instr x (Int64.ofNat n)), (), ?_, Walk.idle_one op _, yields.record _⟩
    cases op <;> exact Action.bind_ok used
  two := by
    intro Φ b r _ source target n x y _ _ op yields _ usable usable' _ _
    have used := yields.use (ε := WalkError) usable
    have used' := yields.use (ε := WalkError) usable'
    refine ⟨r.record (op.instr x y (Int64.ofNat n)), (), ?_, Walk.idle_two op _, yields.record _⟩
    cases op <;> exact (Action.bind_ok used).trans (Action.bind_ok used')
  offset _ _ usable _ := ⟨_, (), rfl, rfl, usable⟩
  alloc yields positive small := by
    obtain ⟨lent, kept⟩ := yields.alloc positive (Nat.lt_of_le_sub_one (Nat.two_pow_pos 63) small)
    refine .inr ⟨_, _, (), _, (), lent, rfl, rfl, ?_, kept⟩
    -- The new temporary is the first to be found.
    intro _
    simp [TempTable.find?]
  free := by
    rintro Φ b r _ loan _ _ yields rfl
    obtain ⟨r', ran, kept⟩ := yields.free
    exact ⟨r', (), ran, rfl, kept⟩

end Recorder

namespace Walk

/-- How a walk ends with what was found to be wrong. -/
def verdict : Option (Place × WalkError) → Except (Halt WalkError) Unit
  | none => .ok ()
  | some (_, cause) => .error (.error cause)

/-- A walk stops at what was found first. -/
theorem verdict_eq_error {found : Option (Place × WalkError)} {cause : WalkError} :
    verdict found = .error (.error cause) ↔ ∃ place, found = some (place, cause) := by
  -- Without an offence the walk goes through, and otherwise its error is the offence.
  rcases found with _ | ⟨place, cause'⟩ <;> simp [verdict]

/--
How a walk over a tree has to end, with these names bound.

It comes to an end without a fault. It goes through when the tree is accepted and every name in it
is bound, and else ends with the first offence. If no name is missing, the check of the tree
reports the same flaw at the same place.
-/
structure Judged (root : Expr α) (bound : String → Bool) (ended : Except (Halt WalkError) Unit) :
    Prop where
  faultless : ∀ fault, ended ≠ .error (.fault fault)
  through : ended = .ok () ↔
    root.validate = .ok () ∧ ∀ name, root.Occurs name → bound name = true
  first : ∀ cause, ended = .error (.error cause) ↔
    ∃ place, root.FirstAt (Expr.offence? bound) place cause
  reported : ∀ cause, ended = .error (.error cause) →
    (∀ name, root.Occurs name → bound name = true) →
    ∃ place, ∃ flaw : Flaw, root.FirstAt (Expr.offence? bound) place cause ∧
      cause = flaw.inWalk ∧
      root.validate = .error (flaw.inTree place) ∧
      (flaw.inTree place).message = flaw.message
        ("root" ++ String.join (place.map (fun position => "." ++ toString position)))

/-- A node without a flaw is an offence only by its name. -/
theorem offence?_eq_none {bound : String → Bool} {e : Expr α} :
    e.offence? bound = none ↔ e.flaw? = none ∧ ∀ name, e = .var name → bound name = true := by
  -- Only a variable can offend without a flaw.
  cases e <;> simp [Expr.offence?, Expr.flaw?]

/-- Where no name is missing, offences are flaws. -/
theorem offence?_eq_flaw {bound : String → Bool} {e : Expr α}
    (named : ∀ name, e = .var name → bound name = true) :
    e.offence? bound = e.flaw?.map Flaw.inWalk := by
  -- A variable that is bound has no offence, and other nodes have none but their flaws.
  cases e with
  | var name => simp [Expr.offence?, Expr.flaw?, named name rfl]
  | _ => rfl

/-- Nothing is an offence in a tree that is accepted and has no name that is missing. -/
theorem firstWrong?_offence_eq_none {bound : String → Bool} {root : Expr α} :
    root.firstWrong? (Expr.offence? bound) = none ↔
      root.validate = .ok () ∧ ∀ name, root.Occurs name → bound name = true := by
  -- Both sides speak of all places of the tree, so a place is looked at on its own.
  rw [Expr.firstWrong?_eq_none, Expr.validate_eq_ok]
  constructor
  · intro each
    refine ⟨fun place e there => (offence?_eq_none.mp (each place e there)).1, ?_⟩
    -- A name that occurs is looked at where it occurs.
    rintro name ⟨place, there⟩
    exact (offence?_eq_none.mp (each place _ there)).2 name rfl
  · rintro ⟨flawless, covered⟩ place e there
    refine offence?_eq_none.mpr ⟨flawless place e there, fun name named => ?_⟩
    exact covered name ⟨place, named ▸ there⟩

/-- Where no name is missing, the first offence is the first flaw. -/
theorem exists_flaw {bound : String → Bool} {root : Expr α} {place : Place} {cause : WalkError}
    (covered : ∀ name, root.Occurs name → bound name = true)
    (first : root.FirstAt (Expr.offence? bound) place cause) :
    ∃ flaw, cause = flaw.inWalk ∧ root.FirstAt Expr.flaw? place flaw := by
  obtain ⟨e, there, blamed⟩ := first.found
  -- At every place of the tree an offence is a flaw.
  have named (place : Place) (e : Expr α) (there : root.at? place = some e) :
      e.offence? bound = e.flaw?.map Flaw.inWalk :=
    offence?_eq_flaw (fun name same => covered name ⟨place, same ▸ there⟩)
  rw [named place e there] at blamed
  obtain ⟨flaw, flawed, rfl⟩ := Option.map_eq_some_iff.mp blamed
  -- So where there was no offence before, there was no flaw either.
  refine ⟨flaw, rfl, ⟨e, there, flawed⟩, fun earlier e before there => ?_⟩
  have nothing := first.first earlier e before there
  rw [named earlier e there] at nothing
  exact Option.map_eq_none_iff.mp nothing

/-- The first offence is how a walk has to end. -/
theorem judged_verdict (root : Expr α) (bound : String → Bool) :
    Judged root bound (verdict (root.firstWrong? (Expr.offence? bound))) where
  faultless fault := by
    cases root.firstWrong? (Expr.offence? bound) <;> simp [verdict]
  through := by
    rw [← firstWrong?_offence_eq_none]
    cases root.firstWrong? (Expr.offence? bound) <;> simp [verdict]
  first cause := by
    simp only [verdict_eq_error, Expr.firstWrong?_eq_some]
  reported cause stopped covered := by
    obtain ⟨place, found⟩ := verdict_eq_error.mp stopped
    have first := Expr.firstWrong?_eq_some.mp found
    -- No name is missing, so what the walk stops at is what the check reports.
    obtain ⟨flaw, same, flawed⟩ := exists_flaw covered first
    refine ⟨place, flaw, first, same, Expr.validate_eq_error flawed, ?_⟩
    rw [← Place.text_eq, Flaw.message_inTree]

/-- Errors that are alike are the same, if no two refusals are. -/
theorem eq_of_alike {refused : AllocError → AllocError → Prop} (never : ∀ a b, ¬ refused a b)
    {cause cause' : WalkError} (alike : WalkError.Alike refused cause cause') :
    cause = cause' := by
  -- Two errors of one kind agree in all that they say, unless they are refusals.
  cases cause <;> cases cause' <;> first | exact alike | exact absurd alike.2 (never _ _)

/-- A walk on a backend that is like the idle one ends with the first offence. -/
theorem generate_like_idle [Elem α] {be : Backend σ WalkError α β}
    (L : Likeness be Backend.idle φ) (never : ∀ cause cause', ¬ L.refused cause cause')
    {c : Context α β} {n : Nat} (contexts : L.Contexts c c.bare n) (root : Expr α) {Φ : List φ}
    {s : σ} (related : L.state Φ root.blocks s ()) (small : n * root.broadest ≤ L.top) :
    ∃ s', (generate be c root).outcome s =
        (verdict (root.firstWrong? (Expr.offence? c.binds)), s') ∧ L.state Φ 0 s' () := by
  have bounded := Nat.lt_of_le_of_lt small L.bounded
  -- The idle walk is over the same names, and ends with the first offence.
  have idle : generate Backend.idle c.bare root () =
      ending (root.firstWrong? (Expr.offence? c.binds)) := by
    have paths : ¬ c.bare.paths ≤ 0 := by
      rw [contexts.paths']
      exact ofNat_pos contexts.positive (Nat.lt_of_le_of_lt contexts.small L.bounded)
    rw [generate, Context.validate, if_neg paths, ← c.binds_bare]
    exact idle_visit contexts.paths' contexts.positive root bounded
  rcases L.generate_alike contexts root related small with
    ⟨s', _, ran, ran', related⟩ | ⟨cause, cause', s', _, stopped, stopped', alike, related⟩
  · -- Where the idle walk goes through there is no offence.
    refine ⟨s', ?_, related⟩
    rw [idle] at ran'
    rw [Action.outcome, ran]
    cases found : root.firstWrong? (Expr.offence? c.binds) with
    | none => rfl
    | some entry =>
      rw [found] at ran'
      cases ran'
  · -- The idle backend refuses nothing, so both walks stop at the same error.
    obtain rfl : cause = cause' := eq_of_alike never alike
    refine ⟨s', ?_, related⟩
    rw [idle] at stopped'
    rw [Action.outcome, stopped]
    cases found : root.firstWrong? (Expr.offence? c.binds) with
    | none =>
      rw [found] at stopped'
      cases stopped'
    | some entry =>
      rw [found] at stopped'
      cases stopped'
      rfl

/-- Buffers that are as they should be stand for themselves next to an idle backend. -/
theorem contexts_bare {be : Backend σ WalkError α β} {L : Likeness be Backend.idle φ}
    {c : Context α β} {n : Nat} (paths : c.paths = Int64.ofNat n) (positive : 0 < n)
    (small : n ≤ L.top) {proper : β → Prop} (each : c.Each proper)
    (same : ∀ Φ area x, proper x → L.same Φ area n x ()) : L.Contexts c c.bare n where
  paths := paths
  paths' := paths
  positive := positive
  small := small
  value Φ := same Φ _ _ each.value
  deriv Φ := same Φ _ _ each.deriv
  bound name := by
    -- A name is bound on both sides or on none.
    cases found : c.bindings.find? name with
    | none => exact .inl ⟨rfl, by simp [Context.bare, NameMap.find?_mapValues, found]⟩
    | some b =>
      refine .inr ⟨b, ⟨(), b.seed⟩, rfl, ?_, rfl, fun Φ => same Φ _ _ (each.data name b found)⟩
      simp [Context.bare, NameMap.find?_mapValues, found]

end Walk

/-- Paths whose widest block is small are few themselves. -/
theorem exists_paths {paths : Int64} (some : 0 < paths) {width top : Nat}
    (small : paths.toInt * max 1 width ≤ top) :
    ∃ n : Nat, paths = Int64.ofNat n ∧ paths.toInt = n ∧ 0 < n ∧ n ≤ top ∧ n * width ≤ top := by
  -- Paths are counted, so the product is one of natural numbers.
  obtain ⟨n, paths, exact⟩ := exists_eq_ofNat (Int64.le_of_lt some)
  rw [Int64.lt_iff_toInt_lt, Int64.toInt_zero] at some
  rw [exact] at small
  have whole : n * max 1 width ≤ top := by exact_mod_cast small
  obtain ⟨one, narrow⟩ := Expr.le_of_mul_max_le whole
  exact ⟨n, paths, exact, by omega, by omega, narrow⟩

section Backends

variable [Elem α] {root : Expr α}

/-- A walk on memory without a limit ends with the first offence. -/
theorem Host.generate_unlimited {h : Host α} {c : Context α View} (some : 0 < c.paths)
    (long : c.Each (fun v => c.paths.toInt ≤ v.length)) (unlimited : h.limit ≤ 0)
    (numbered : h.Numbered) (small : c.paths.toInt * max 1 root.broadest ≤ room) :
    ∃ h', (Walk.generate backend c root).outcome h =
      (Walk.verdict (root.firstWrong? (Expr.offence? c.binds)), h') := by
  obtain ⟨n, paths, exact, positive, few, narrow⟩ := exists_paths some small
  rw [exact] at long
  -- All that memory is asked for in the walk is granted, on top of what is on loan already.
  have contexts : (likeIdle h.live).Contexts c c.bare n :=
    Walk.contexts_bare paths positive few long (fun _ _ x enough => by exact_mod_cast enough)
  have started : (likeIdle h.live).state [] root.blocks h () := ⟨unlimited, numbered, rfl⟩
  obtain ⟨h', ran, _⟩ :=
    Walk.generate_like_idle (likeIdle h.live) (fun _ _ => id) contexts root started narrow
  exact ⟨h', ran⟩

/-- A walk on a recorder without a limit ends with the first offence, and ends what it began. -/
theorem Recorder.generate_unlimited {r : Recorder α} {c : Context α Ref} (some : 0 < c.paths)
    (usable : c.Each (Ref.Usable r.live)) (unlimited : r.limit ≤ 0) (fresh : r.Fresh root.blocks)
    (small : c.paths.toInt * max 1 root.broadest < 2 ^ 63) :
    ∃ r', (Walk.generate backend c root).outcome r =
      (Walk.verdict (root.firstWrong? (Expr.offence? c.binds)), r') ∧ r'.live = r.live := by
  have below : c.paths.toInt * max 1 root.broadest ≤ (2 ^ 63 - 1 : Nat) := by
    rw [show ((2 ^ 63 - 1 : Nat) : Int) = 2 ^ 63 - 1 from rfl]
    exact Int.le_sub_one_of_lt small
  obtain ⟨n, paths, _, positive, few, narrow⟩ := exists_paths some below
  -- Operands that can be used at the start can be used throughout.
  have contexts : (likeIdle r.live).Contexts c c.bare n :=
    Walk.contexts_bare paths positive few usable (fun _ _ _ usable => usable_append usable)
  have started : (likeIdle r.live).state [] root.blocks r () := ⟨unlimited, fresh, rfl⟩
  obtain ⟨r', ran, yields⟩ :=
    Walk.generate_like_idle (likeIdle r.live) (fun _ _ => id) contexts root started narrow
  exact ⟨r', ran, yields.stacked⟩

/-- A tree becomes a program without a limit exactly when nothing in it is an offence. -/
theorem Program.exists_compile_unlimited [Written α] {paths limit : Int64} {seeds : NameMap α}
    (some : 0 < paths) (unlimited : limit ≤ 0)
    (small : paths.toInt * max 1 root.broadest < 2 ^ 63) (countable : root.blocks < 2 ^ 64) :
    (∃ p, compile root paths seeds limit = .ok p) ↔
      root.firstWrong? (Expr.offence? (fun name => (seeds.find? name).isSome)) = none := by
  obtain ⟨c, declares, recorded⟩ := exists_record_eq root paths limit seeds
  -- The seeds are what the names of the recording are bound by.
  have binds : c.binds = fun name => (seeds.find? name).isSome := by
    funext name
    cases found : seeds.find? name with
    | none => simp [Context.binds, declares.unknown name found]
    | some seed =>
      obtain ⟨_, _, _, bound⟩ := declares.known name seed found
      simp [Context.binds, bound]
  -- Before the walk there is no temporary, and no operand is one.
  have lasting := declares.lasting
  have usable : c.Each (Ref.Usable (declared paths limit seeds).live) :=
    ⟨fun temp => absurd temp lasting.value, fun temp => absurd temp lasting.deriv,
      fun name b found temp => absurd temp (lasting.data name b found)⟩
  have fresh : (declared paths limit seeds).Fresh root.blocks :=
    ⟨by show 0 + root.blocks < 2 ^ 64; omega, fun entry listed => absurd listed List.not_mem_nil⟩
  rw [← declares.paths] at some small
  obtain ⟨r', ran, ended⟩ := Recorder.generate_unlimited some usable unlimited fresh small
  rw [binds] at ran
  cases found : root.firstWrong? (Expr.offence? (fun name => (seeds.find? name).isSome)) with
  | none =>
    -- The walk goes through, and a tree that it goes through can be written.
    rw [found] at ran
    have accepted := (Walk.firstWrong?_offence_eq_none.mp found).1
    obtain ⟨text, written⟩ := root.exists_write 0 (Expr.defect?_eq_none_of_check
      (t := ⟨paths, fun _ => true, fun _ _ => none⟩) (fun _ _ => rfl) root [] 0 accepted
      (fun _ _ => rfl))
    obtain ⟨p, compiled, _⟩ := compile_ok recorded (Action.eq_ok_of_outcome ran) ended written
    exact ⟨fun _ => rfl, fun _ => ⟨p, compiled⟩⟩
  | some entry =>
    -- The error of the walk is that of the compilation.
    rw [found] at ran
    have stopped := compile_halt recorded (Action.eq_error_of_outcome ran)
    constructor
    · rintro ⟨p, compiled⟩
      rw [stopped] at compiled
      cases compiled
    · intro nothing
      cases nothing

end Backends

/--
A walk fails exactly on what the check of its tree describes, and on names that are not bound.

On memory and on a recorder without a limit, with blocks that can be lent, it ends with the first
offence of its tree. The variables of an accepted tree are listed in order, so the tree is compiled
exactly with seeds for all of them.
-/
theorem Walk.stops_at_first_offence [Elem α] [Written α] (root : Expr α) :
    (∀ (h : Host α) (c : Context α View), 0 < c.paths →
      c.Each (fun v => c.paths.toInt ≤ v.length) → h.limit ≤ 0 → h.Ready →
      c.paths.toInt * max 1 root.broadest ≤ Host.room →
      Judged root c.binds ((generate Host.backend c root).outcome h).1) ∧
    (∀ (r : Recorder α) (c : Context α Ref), 0 < c.paths → c.Each (Ref.Usable r.live) →
      r.limit ≤ 0 → r.Fresh root.blocks → c.paths.toInt * max 1 root.broadest < 2 ^ 63 →
      Judged root c.binds ((generate Recorder.backend c root).outcome r).1) ∧
    (root.validate = .ok () →
      ∃ names, root.vars = .ok names ∧ names.Pairwise (· < ·) ∧
        (∀ name, name ∈ names ↔ root.Occurs name) ∧
        ∀ (paths limit : Int64) (seeds : NameMap α), 0 < paths → limit ≤ 0 →
          paths.toInt * max 1 root.broadest < 2 ^ 63 → root.blocks < 2 ^ 64 →
          ((∃ p, Program.compile root paths seeds limit = .ok p) ↔
            ∀ name ∈ names, (seeds.find? name).isSome)) := by
  refine ⟨fun h c some long unlimited ready small => ?_,
    fun r c some usable unlimited fresh small => ?_, fun accepted => ?_⟩
  · -- Memory ends the walk with the first offence.
    obtain ⟨h', ran⟩ := Host.generate_unlimited some long unlimited ready.lent small
    rw [ran]
    exact judged_verdict root c.binds
  · -- So does a recorder.
    obtain ⟨r', ran, _⟩ := Recorder.generate_unlimited some usable unlimited fresh small
    rw [ran]
    exact judged_verdict root c.binds
  · obtain ⟨names, listed⟩ := Expr.exists_vars accepted
    -- The list has the names that a walk looks up, which are those that occur.
    have named (name : String) : name ∈ names ↔ root.Occurs name := by
      rw [Expr.mem_vars listed, Expr.mem_mentioned_iff]
    refine ⟨names, listed, Expr.sorted_vars listed, named, ?_⟩
    intro paths limit seeds some unlimited small countable
    rw [Program.exists_compile_unlimited some unlimited small countable,
      firstWrong?_offence_eq_none]
    simp only [accepted, true_and, named]

namespace Walk

/-- A sum with an empty place, an empty sum and a name that is not bound, in this order. -/
def offendingTree : Expr Float := .add [.var "x", .mul [.hole, .add []], .exp (.var "y")]

/--
A walk over the sum stops at the empty place, and at its first name if none is bound. The product
of one variable is compiled with a seed for it, and not without.
-/
theorem stops_at_first_offence_mixed :
    ((generate Host.backend sampleContext offendingTree).outcome sampleHost).1 =
        .error (.error .emptyPlace) ∧
      ((generate Recorder.backend ⟨2, .value, .deriv, .empty⟩ offendingTree).outcome
        (Recorder.new 2 0)).1 = .error (.error (.unbound "x")) ∧
      (∃ p, Program.compile (sampleTree : Expr Float) 2 (.insert .empty "x" Elem.one) 0 = .ok p) ∧
      ∀ p, Program.compile (sampleTree : Expr Float) 2 .empty 0 ≠ .ok p := by
  -- The registers and the one input have two elements, and nothing is on loan.
  have onHost := (stops_at_first_offence offendingTree).1 sampleHost sampleContext (by decide)
    ⟨by decide, by decide, fun name b found => by
      rw [sampleContext, find?_sampleInputs] at found
      split at found
      · cases found
        decide
      · cases found⟩ (by decide)
    ⟨fun entry listed => absurd listed List.not_mem_nil, by decide⟩ (by decide)
  -- A recorder without temporaries may use its registers.
  have onRecorder := (stops_at_first_offence offendingTree).2.1 (Recorder.new 2 0)
    ⟨2, .value, .deriv, .empty⟩ (by decide)
    ⟨Recorder.usable_of_ne (by decide), Recorder.usable_of_ne (by decide), fun name b found => by
      rw [NameMap.find?_empty] at found
      cases found⟩ (by decide) ⟨by decide, fun entry listed => absurd listed List.not_mem_nil⟩
    (by decide)
  -- The product mentions one variable, which needs a seed.
  obtain ⟨names, listed, _, named, compiled⟩ :=
    (stops_at_first_offence (sampleTree : Expr Float)).2.2 rfl
  refine ⟨(onHost.first _).mpr ⟨[1, 0], Expr.firstWrong?_eq_some.mp ?_⟩,
    (onRecorder.first _).mpr ⟨[0], Expr.firstWrong?_eq_some.mp ?_⟩, ?_, ?_⟩
  · simp [offendingTree, Expr.firstWrong?, Expr.firstWrongIn?, Expr.offence?, Expr.flaw?,
      Flaw.inWalk, Context.binds, sampleContext, find?_sampleInputs]
  · simp [offendingTree, Expr.firstWrong?, Expr.firstWrongIn?, Expr.offence?, Expr.flaw?,
      Context.binds, NameMap.find?_empty]
  · refine (compiled 2 0 _ (by decide) (by decide) (by decide) (by decide)).mpr ?_
    intro name among
    have mentioned := Expr.mem_mentioned_iff.mpr ((named name).mp among)
    obtain rfl : name = "x" := by
      simpa [sampleTree, Expr.mentioned, Expr.mentionedIn] using mentioned
    simp [NameMap.find?_insert]
  · intro p made
    have covered := (compiled 2 0 .empty (by decide) (by decide) (by decide) (by decide)).mp
      ⟨p, made⟩ "x" ((named "x").mpr ⟨[0], rfl⟩)
    simp [NameMap.find?_empty] at covered

end Walk

end Tangent
