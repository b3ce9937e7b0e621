import Tangent.Proofs.Exec.Compiled
import Tangent.Proofs.Program.Lifetimes

/-!
What can be relied on in a compiled program.

A recording is followed through a walk, next to itself: what has been written down so far is safe
to run, never writes to a variable, never works on elements of its own source, and begins and ends
temporaries like the calls of the walk are nested.
-/

namespace Tangent

open ProgramFile (elements)

variable {α : Type}

namespace Ref

/-- The buffer of an operand. Registers are told apart by their space alone. -/
def buffer (r : Ref) : Space × Option Int64 :=
  match r.space with
  | .var => (.var, some r.index)
  | .temp => (.temp, some r.index)
  | space => (space, none)

/-- The elements that an operand of a length stands for. -/
def spots (r : Ref) (len : Int64) : Set ((Space × Option Int64) × Int) :=
  { spot | spot.1 = r.buffer ∧ r.offset.toInt ≤ spot.2 ∧ spot.2 < r.offset.toInt + len.toInt }

/-- Operands in different buffers have no element in common. -/
theorem disjoint_spots {a b : Ref} (differ : a.buffer ≠ b.buffer) (len : Int64) :
    Disjoint (a.spots len) (b.spots len) := by
  -- A common element would lie in one buffer, which is that of both.
  rw [Set.disjoint_left]
  intro spot first second
  exact differ (first.1.symm.trans second.1)

/-- An operand among so many variables and temporaries, in a buffer of at most `top` elements. -/
structure Within (vars temps top : Nat) (r : Ref) : Prop where
  known : r.space.code ≤ 3
  numbered : ∃ j, r.index = Int64.ofNat j ∧ (j = 0 ∨ j < vars ∨ j < temps)
  near : r.offset.toInt ≤ top

variable {vars temps temps' top : Nat}

/-- An operand stays what it is with more temporaries. -/
theorem Within.mono {r : Ref} (within : r.Within vars temps top) (more : temps ≤ temps') :
    r.Within vars temps' top :=
  -- Only the number of temporaries is looked at, and it is bounded from above.
  { within with
    numbered := by
      obtain ⟨j, same, range⟩ := within.numbered
      exact ⟨j, same, by omega⟩ }

/-- The register for values is the operand of instructions that make no use of it. -/
theorem within_value : Ref.value.Within vars temps top :=
  -- It lies in a known space, at the start of its buffer.
  ⟨by decide, ⟨0, rfl, .inl rfl⟩, Int.natCast_nonneg top⟩

/-- A temporary is an operand once it has its number. -/
theorem within_temp {i : Nat} (begun : i < temps) :
    (⟨.temp, Int64.ofNat i, 0⟩ : Ref).Within vars temps top :=
  -- It lies in the space of temporaries, and its number is below that of the next one.
  ⟨(by decide : Space.temp.code ≤ 3), ⟨i, rfl, .inr (.inr begun)⟩, Int.natCast_nonneg top⟩

end Ref

/--
What holds of an instruction in a recording with so many variables and temporaries.

No buffer has more than `top` elements.
-/
structure Instr.Tidy (vars temps top : Nat) (i : Instr α) : Prop where
  written : i.dst.space ≠ .var
  apart : ∀ op, i.task = .two op → Disjoint (i.src.spots i.len) (i.dst.spots i.len)
  dst : i.dst.Within vars temps top
  src : i.src.Within vars temps top
  short : i.len.toInt ≤ top

/-- More temporaries leave an instruction tidy. -/
theorem Instr.Tidy.mono {vars temps temps' top : Nat} {i : Instr α} (tidy : i.Tidy vars temps top)
    (more : temps ≤ temps') : i.Tidy vars temps' top :=
  -- Only its operands know about temporaries.
  { tidy with
    dst := tidy.dst.mono more
    src := tidy.src.mono more }

/-- An instruction that begins or ends a temporary is tidy. -/
theorem Instr.Tidy.temp {vars temps top i : Nat} {op : Op} {scalar : α} {len : Int64}
    (books : op = .alloc ∨ op = .free) (begun : i < temps) (short : len.toInt ≤ top) :
    Instr.Tidy vars temps top ⟨op, ⟨.temp, Int64.ofNat i, 0⟩, .value, scalar, len⟩ where
  -- It writes to a temporary, and works on no second operand.
  written := by simp
  apart task two := by rcases books with rfl | rfl <;> simp [Instr.task] at two
  dst := Ref.within_temp begun
  src := Ref.within_value
  short := short

namespace Area

variable {names : List String} {n next total : Nat} {temps : List (Nat × Nat)} {area other : Area}
  {base base' : Ref}

/-- The block of a depth is the temporary at that depth. -/
def Bears (temps : List (Nat × Nat)) (base : Ref) : Area → Prop
  | .block depth => ∃ entry, temps.reverse[depth]? = some entry ∧ base.index = Int64.ofNat entry.1
  | _ => True

/-- A place inside an area is an operand. -/
theorem At.within (placed : area.At names n temps id base total)
    (below : ∀ entry ∈ temps, entry.1 < next) {vars top k : Nat} (length : names.length = vars)
    (near : (Int64.ofNat k).toInt ≤ top) :
    ({ base with offset := Int64.ofNat k } : Ref).Within vars next top := by
  -- The space tells the area, and the index of a temporary is below the next one.
  subst length
  cases placed with
  | value => exact ⟨(by decide : Space.value.code ≤ 3), ⟨0, rfl, .inl rfl⟩, near⟩
  | deriv => exact ⟨(by decide : Space.deriv.code ≤ 3), ⟨0, rfl, .inl rfl⟩, near⟩
  | @data i _ listed _ =>
    have inside := (List.getElem?_eq_some_iff.mp listed).1
    exact ⟨(by decide : Space.var.code ≤ 3), ⟨i, rfl, .inr (.inl inside)⟩, near⟩
  | @block i _ _ live =>
    exact ⟨(by decide : Space.temp.code ≤ 3), ⟨i, rfl, .inr (.inr (below _ live))⟩, near⟩

/-- What is written to is no variable. -/
theorem At.space_ne (placed : area.At names n temps id base total) (writable : area.Writable) :
    base.space ≠ .var := by
  -- Registers and blocks are no variables, and data is not written to.
  cases placed with
  | value => simp [Ref.value]
  | deriv => simp [Ref.deriv]
  | data => exact writable.elim
  | block => simp

/-- Temporaries at different depths have different numbers. -/
theorem depth_eq (numbered : Numbered temps next) {depth depth' : Nat} {entry entry' : Nat × Nat}
    (at' : temps.reverse[depth]? = some entry) (at'' : temps.reverse[depth']? = some entry')
    (same : Int64.ofNat entry.1 = Int64.ofNat entry'.1) : depth = depth' := by
  have bounded := numbered.bounded
  have below : ∀ {entry : Nat × Nat} {depth : Nat}, temps.reverse[depth]? = some entry →
      entry.1 < 2 ^ 63 := fun found => Nat.lt_of_lt_of_le
    (numbered.below _ (List.mem_reverse.mp (List.mem_of_getElem? found))) bounded
  have number : entry.1 = entry'.1 := by
    by_contra differ
    exact ofNat_ne differ (below at') (below at'') same
  -- Numbers rise with the depth, so none occurs twice.
  have distinct : (temps.reverse.map (·.1)).Nodup := by
    rw [List.map_reverse, List.nodup_reverse, List.Nodup, List.pairwise_map]
    exact numbered.falling.imp (fun lower => Ne.symm (Nat.ne_of_lt lower))
  have inside : depth < (temps.reverse.map (·.1)).length := by
    have := (List.getElem?_eq_some_iff.mp at').1
    simpa using this
  refine (List.getElem?_inj inside distinct).mp ?_
  simp only [List.getElem?_map, at', at'', Option.map_some, number]

/-- Different areas are in different buffers. -/
theorem At.buffer_ne {total' : Nat} (numbered : Numbered temps next)
    (placed : area.At names n temps id base total) (bears : area.Bears temps base)
    (placed' : other.At names n temps id base' total') (bears' : other.Bears temps base')
    (differ : area ≠ other) : base.buffer ≠ base'.buffer := by
  cases placed with
  -- Registers have a space of their own.
  | value => cases placed' <;> simp_all [Ref.buffer, Ref.value, Ref.deriv, Ref.var]
  | deriv => cases placed' <;> simp_all [Ref.buffer, Ref.value, Ref.deriv, Ref.var]
  | @data i name listed bounded =>
    cases placed' with
    | @data j name' listed' bounded' =>
      -- Each position has one name.
      have apart : i ≠ j := by
        rintro rfl
        rw [listed, Option.some.injEq] at listed'
        exact differ (congrArg Area.data listed')
      simpa [Ref.buffer, Ref.var] using ofNat_ne apart bounded bounded'
    | _ => simp [Ref.buffer, Ref.value, Ref.deriv, Ref.var]
  | @block i depth _ live =>
    cases placed' with
    | @block j depth' _ live' =>
      -- Blocks in the same buffer would be at the same depth.
      obtain ⟨entry, at', index⟩ := bears
      obtain ⟨entry', at'', index'⟩ := bears'
      simp only [Ref.buffer, ne_eq, Prod.mk.injEq, Option.some.injEq, true_and]
      intro same
      refine differ (congrArg Area.block (depth_eq numbered at' at'' ?_))
      rw [← index, ← index']
      exact same
    | _ => simp [Ref.buffer, Ref.value, Ref.deriv, Ref.var]

end Area

variable [Elem α] [Written α]

/--
A recorder with what is relied on in programs.

The variables are listed with their seeds and the live temporaries with their sizes, the latest
first. No buffer has more than `top` elements.
-/
structure Recorder.Steady (r : Recorder α) (n : Nat) (vars : List (String × α))
    (temps : List (Nat × Nat)) (next top : Nat) : Prop where
  sound : r.Sound n (vars.reverse.map (·.1)) temps id next
  declared : r.declared = vars
  tidy : ∀ i ∈ r.recorded, i.Tidy vars.length next top
  live : Program.liveAfter r.recorded.reverse = r.live
  begun : Program.begun r.recorded.reverse = (List.range next).map Int64.ofNat
  latest : Program.LatestFirst r.recorded.reverse
  peak : Program.Countable r.recorded.reverse →
    r.liveElements.toInt = elements r.live ∧
      Program.IsPeak r.recorded.reverse r.peakElements.toInt

namespace Recorder

/-- A stretch of an area of no more than `top` elements, as an operand. -/
def Stretch (names : List String) (n top : Nat) (temps : List (Nat × Nat)) (area : Area) (m : Nat)
    (x : Ref) : Prop :=
  ∃ base total k, area.At names n temps id base total ∧ area.Bears temps base ∧
    x = { base with offset := Int64.ofNat k } ∧ k + m ≤ total ∧ total ≤ top

/-- What is left of a stretch behind some elements is one. -/
theorem Stretch.drop {names : List String} {n top m k : Nat} {temps : List (Nat × Nat)}
    {area : Area} {x : Ref} (stretch : Stretch names n top temps area m x) (fewer : k ≤ m) :
    Stretch names n top temps area (m - k) { x with offset := x.offset + Int64.ofNat k } := by
  -- The offset grows by as much as the stretch gets shorter.
  obtain ⟨base, total, start, placed, bears, rfl, inside, small⟩ := stretch
  refine ⟨base, total, start + k, placed, bears, ?_, by omega, small⟩
  simp only [Int64.ofNat_add]

/-- A stretch has shorter ones at its start. -/
theorem Stretch.shorter {names : List String} {n top m k : Nat} {temps : List (Nat × Nat)}
    {area : Area} {x : Ref} (stretch : Stretch names n top temps area m x) (fewer : k ≤ m) :
    Stretch names n top temps area k x := by
  -- It starts at the same place and ends earlier.
  obtain ⟨base, total, start, placed, bears, operand, inside, small⟩ := stretch
  exact ⟨base, total, start, placed, bears, operand, by omega, small⟩

omit [Elem α] in
/-- Live temporaries have a number of elements. -/
theorem Sound.exists_elements {r : Recorder α} {n next : Nat} {names : List String}
    {temps : List (Nat × Nat)} (sound : r.Sound n names temps id next) :
    ∃ a : Nat, elements r.live = a := by
  -- Each of them has the size it began with.
  refine Int.eq_ofNat_of_zero_le (List.sum_nonneg (fun x listed => ?_))
  obtain ⟨entry, among, rfl⟩ := List.mem_map.mp listed
  rw [sound.live] at among
  obtain ⟨source, found, rfl⟩ := List.mem_map.mp among
  rw [Int64.toInt_ofNat_of_lt (sound.sizes.2 source found)]
  omega

omit [Elem α] in
/-- Where a stretch starts and how long it is, next to the largest buffer. -/
theorem Sound.inside_le {r : Recorder α} {n next : Nat} {names : List String}
    {temps : List (Nat × Nat)} (sound : r.Sound n names temps id next) {area : Area} {base : Ref}
    {total k m top : Nat} (placed : area.At names n temps id base total) (inside : k + m ≤ total)
    (small : total ≤ top) : (Int64.ofNat k).toInt ≤ top ∧ (Int64.ofNat m).toInt ≤ top := by
  -- Both are below the size of the buffer, which can be counted.
  have bounded := sound.total_lt placed
  rw [Int64.toInt_ofNat_of_lt (by omega), Int64.toInt_ofNat_of_lt (by omega)]
  omega

namespace Steady

variable {r : Recorder α} {n next m top : Nat} {vars : List (String × α)}
  {temps : List (Nat × Nat)}

omit [Elem α] in
/-- A recording stays steady with a tidy instruction that is accepted. -/
theorem record (steady : r.Steady n vars temps next top) {i : Instr α}
    (other : i.op ≠ .alloc ∧ i.op ≠ .free) (tidy : i.Tidy vars.length next top)
    (sound : (r.record i).Sound n (vars.reverse.map (·.1)) temps id next) :
    (r.record i).Steady n vars temps next top := by
  -- Nothing begins or ends, so what is live and the peak stay as they were.
  have reversed : (r.record i).recorded.reverse = r.recorded.reverse ++ [i] := List.reverse_cons
  have same : Program.liveAfter (r.recorded.reverse ++ [i]) = r.live := by
    rw [Program.liveAfter_concat, TempTable.after_other _ other, steady.live]
  exact {
    sound
    declared := steady.declared
    tidy := fun j listed => by
      rcases List.mem_cons.mp listed with rfl | listed
      · exact tidy
      · exact steady.tidy j listed
    live := by rw [reversed, same]; rfl
    begun := by rw [reversed, Program.begun_concat, if_neg other.1, List.append_nil, steady.begun]
    latest := by
      rw [reversed]
      exact steady.latest.concat (fun ends => absurd ends other.2)
    peak := fun countable => by
      rw [reversed] at countable ⊢
      obtain ⟨total, peak⟩ := steady.peak countable.of_concat
      refine ⟨total, peak.concat_of_le ?_⟩
      rw [same, steady.live] }

/-- A recording stays steady when the next temporary begins. -/
theorem opened (steady : r.Steady n vars temps next top) (positive : 0 < m) (bounded : m < 2 ^ 63)
    (small : m ≤ top) (room : next + 1 ≤ 2 ^ 63) :
    (r.opened (Int64.ofNat m)).Steady n vars ((next, m) :: temps) (next + 1) top := by
  have sound : (r.opened (Int64.ofNat m)).Sound n (vars.reverse.map (·.1)) ((next, m) :: temps) id
      (next + 1) := steady.sound.opened rfl positive bounded room
  have counter := steady.sound.counter
  obtain ⟨a, count⟩ := steady.sound.exists_elements
  -- The new temporary is put before the others.
  have live : (r.opened (Int64.ofNat m)).live = (Int64.ofNat next, Int64.ofNat m) :: r.live := by
    rw [sound.live, steady.sound.live]
    rfl
  have more : elements (r.opened (Int64.ofNat m)).live = a + m := by
    rw [live, elements, List.map_cons, List.sum_cons, Int64.toInt_ofNat_of_lt bounded]
    rw [elements] at count
    omega
  have reversed : (r.opened (Int64.ofNat m)).recorded.reverse = r.recorded.reverse ++
      [⟨.alloc, ⟨.temp, r.nextTemp, 0⟩, .value, Elem.zero, Int64.ofNat m⟩] := List.reverse_cons
  have after : Program.liveAfter (r.opened (Int64.ofNat m)).recorded.reverse =
      (r.opened (Int64.ofNat m)).live := by
    rw [reversed, Program.liveAfter_concat, steady.live]
    rfl
  exact {
    sound
    declared := steady.declared
    tidy := fun j listed => by
      rcases List.mem_cons.mp listed with rfl | listed
      · rw [counter]
        refine .temp (.inl rfl) (Nat.lt_succ_self next) ?_
        rw [Int64.toInt_ofNat_of_lt bounded]
        omega
      · exact (steady.tidy j listed).mono (Nat.le_succ next)
    live := after
    begun := by
      rw [reversed, Program.begun_concat, steady.begun, List.range_succ, List.map_append]
      simp [counter]
    latest := by
      rw [reversed]
      exact steady.latest.concat (fun ends => by cases ends)
    peak := fun countable => by
      have small := countable.last
      rw [after, more] at small
      rw [reversed] at countable
      obtain ⟨total, peak⟩ := steady.peak countable.of_concat
      -- The sum can be counted, so it is what the recorder adds up.
      have sum : (r.liveElements + Int64.ofNat m).toInt = a + m := by
        have same : r.liveElements = Int64.ofNat a := by
          rw [← Int64.toInt_inj, total, count, Int64.toInt_ofNat_of_lt (by omega)]
        rw [same, ← Int64.ofNat_add, Int64.toInt_ofNat_of_lt (by omega)]
        omega
      refine ⟨sum.trans more.symm, ?_⟩
      have top : (r.opened (Int64.ofNat m)).peakElements.toInt =
          max r.peakElements.toInt (elements (r.opened (Int64.ofNat m)).live) := by
        rw [more, ← sum]
        exact toInt_max _ _
      rw [top, ← after, reversed]
      exact peak.concat }

/-- A recording stays steady when the latest temporary ends. -/
theorem closed {i : Nat} (steady : r.Steady n vars ((i, m) :: temps) next top) :
    (r.closed (Int64.ofNat i) (Int64.ofNat m)).Steady n vars temps next top := by
  have sound : (r.closed (Int64.ofNat i) (Int64.ofNat m)).Sound n (vars.reverse.map (·.1)) temps id
      next := steady.sound.closed
  have bounded : m < 2 ^ 63 := steady.sound.sizes.2 (i, m) List.mem_cons_self
  obtain ⟨b, left⟩ := sound.exists_elements
  have live : r.live = (Int64.ofNat i, Int64.ofNat m) ::
      (r.closed (Int64.ofNat i) (Int64.ofNat m)).live := by
    rw [sound.live, steady.sound.live]
    rfl
  -- The temporary was in front of the others.
  have fewer : elements r.live =
      m + elements (r.closed (Int64.ofNat i) (Int64.ofNat m)).live := by
    rw [live, elements, List.map_cons, List.sum_cons, Int64.toInt_ofNat_of_lt bounded]
    rfl
  have reversed : (r.closed (Int64.ofNat i) (Int64.ofNat m)).recorded.reverse =
      r.recorded.reverse ++ [⟨.free, ⟨.temp, Int64.ofNat i, 0⟩, .value, Elem.zero, 0⟩] :=
    List.reverse_cons
  have after : Program.liveAfter (r.closed (Int64.ofNat i) (Int64.ofNat m)).recorded.reverse =
      (r.closed (Int64.ofNat i) (Int64.ofNat m)).live := by
    rw [reversed, Program.liveAfter_concat, steady.live]
    rfl
  exact {
    sound
    declared := steady.declared
    tidy := fun j listed => by
      rcases List.mem_cons.mp listed with rfl | listed
      · have begun := steady.sound.numbered.below (i, m) List.mem_cons_self
        exact .temp (.inr rfl) begun (Int.natCast_nonneg top)
      · exact steady.tidy j listed
    live := after
    begun := by
      rw [reversed, Program.begun_concat, steady.begun]
      simp
    latest := by
      rw [reversed]
      refine steady.latest.concat (fun _ => ?_)
      rw [steady.live, live]
      rfl
    peak := fun countable => by
      rw [reversed] at countable
      obtain ⟨total, peak⟩ := steady.peak countable.of_concat
      have small := countable.of_concat.last
      rw [steady.live] at small
      refine ⟨?_, ?_⟩
      · -- The sum has the elements of this temporary in it.
        have same : r.liveElements = Int64.ofNat (b + m) := by
          rw [← Int64.toInt_inj, total, fewer, left, Int64.toInt_ofNat_of_lt (by omega)]
          omega
        show (r.liveElements - Int64.ofNat m).toInt = _
        rw [same, Int64.ofNat_add, Int64.add_sub_cancel, left, Int64.toInt_ofNat_of_lt (by omega)]
      · rw [reversed]
        refine peak.concat_of_le ?_
        rw [← reversed, after, steady.live]
        omega }

/-- A recording stays steady with an operation on a stretch that is written to. -/
theorem one (steady : r.Steady n vars temps next top) (op : Unary α) {area : Area} {x : Ref}
    (dst : Stretch (vars.reverse.map (·.1)) n top temps area m x) (writable : area.Writable) :
    (backend.one op x (Int64.ofNat m) : Action (Recorder α) WalkError Unit) r =
        .ok () (r.record (op.instr x (Int64.ofNat m))) ∧
      (r.record (op.instr x (Int64.ofNat m))).Steady n vars temps next top := by
  -- The stretch lies in a buffer that the recording knows, so the operation is written down.
  obtain ⟨base, total, k, placed, _, rfl, inside, small⟩ := dst
  obtain ⟨ran, sound⟩ := steady.sound.one_ok op placed inside
  obtain ⟨near, short⟩ := steady.sound.inside_le placed inside small
  refine ⟨ran, steady.record op.op_ne ?_ sound⟩
  exact {
    written := placed.space_ne writable
    apart := fun op' two => by
      rw [Unary.task_instr] at two
      cases two
    dst := placed.within steady.sound.numbered.below (by simp) near
    src := Ref.within_value
    short }

/-- A recording stays steady with an operation on stretches of different areas. -/
theorem two (steady : r.Steady n vars temps next top) (op : Binary) {source target : Area}
    {x y : Ref}
    (src : Stretch (vars.reverse.map (·.1)) n top temps source m x)
    (dst : Stretch (vars.reverse.map (·.1)) n top temps target m y) (writable : target.Writable)
    (apart : source ≠ target) :
    (backend.two op x y (Int64.ofNat m) : Action (Recorder α) WalkError Unit) r =
        .ok () (r.record (op.instr x y (Int64.ofNat m))) ∧
      (r.record (op.instr x y (Int64.ofNat m))).Steady n vars temps next top := by
  obtain ⟨base, total, k, placed, bears, rfl, inside, small⟩ := src
  obtain ⟨base', total', k', placed', bears', rfl, inside', small'⟩ := dst
  obtain ⟨ran, sound⟩ := steady.sound.two_ok op placed placed' inside inside'
  obtain ⟨near, short⟩ := steady.sound.inside_le placed inside small
  obtain ⟨near', _⟩ := steady.sound.inside_le placed' inside' small'
  have differ := placed.buffer_ne steady.sound.numbered bears placed' bears' apart
  refine ⟨ran, steady.record op.op_ne ?_ sound⟩
  exact {
    written := placed'.space_ne writable
    -- Where an operand starts has no influence on its buffer.
    apart := fun _ _ => Ref.disjoint_spots (a := { base with offset := Int64.ofNat k })
      (b := { base' with offset := Int64.ofNat k' }) differ _
    dst := placed'.within steady.sound.numbered.below (by simp) near'
    src := placed.within steady.sound.numbered.below (by simp) near
    short }

/-- A request is refused, which leaves a recording as it is, or begins the next temporary. -/
theorem alloc {loans : Nat} (steady : r.Steady n vars temps next top) (positive : 0 < m)
    (bounded : m < 2 ^ 63) (small : m ≤ top) (room : next + (loans + 1) ≤ 2 ^ 63) :
    (∃ cause, (backend.alloc (Int64.ofNat m) : Action (Recorder α) WalkError _) r =
        .ok (.error cause) r ∧ r.Steady n vars temps next top ∧ next + loans ≤ 2 ^ 63) ∨
    ∃ r', (backend.alloc (Int64.ofNat m) : Action (Recorder α) WalkError _) r =
        .ok (.ok ⟨.temp, Int64.ofNat next, 0⟩) r' ∧
      Stretch (vars.reverse.map (·.1)) n top ((next, m) :: temps) (.block temps.length) m
        ⟨.temp, Int64.ofNat next, 0⟩ ∧
      r'.Steady n vars ((next, m) :: temps) (next + 1) top ∧ next + 1 + loans ≤ 2 ^ 63 := by
  -- Only the limit can refuse a block of a proper size.
  by_cases exceeded : (r.limit > 0 && r.liveElements + Int64.ofNat m > r.limit) = true
  · refine .inl ⟨.recordLimit (Int64.ofNat m) r.liveElements r.limit, ?_, steady, by omega⟩
    show Recorder.alloc (Int64.ofNat m) r = _
    rw [Recorder.alloc, if_neg (ofNat_pos positive bounded), Action.get_bind, if_pos exceeded]
    rfl
  · refine .inr ⟨_, steady.sound.alloc_ok positive bounded exceeded, ?_,
      steady.opened positive bounded small (by omega), by omega⟩
    -- The new temporary is the last one from the outermost on.
    exact ⟨⟨.temp, Int64.ofNat next, 0⟩, m, 0, .block List.mem_cons_self,
      ⟨(next, m), by simp, rfl⟩, rfl, by omega, small⟩

end Steady

/-- The same recorder twice, steady and with so many more temporaries possible. -/
def Itself (n top : Nat) (vars : List (String × α)) (temps : List (Nat × Nat)) (loans : Nat)
    (r r' : Recorder α) : Prop :=
  r' = r ∧ ∃ next, r.Steady n vars temps next top ∧ next + loans ≤ 2 ^ 63

omit [Elem α] in
/-- Where one more temporary is possible, so are those without it. -/
theorem Itself.fewer {n top loans : Nat} {vars : List (String × α)} {temps : List (Nat × Nat)}
    {r r' : Recorder α} (more : Itself n top vars temps (loans + 1) r r') :
    Itself n top vars temps loans r r' := by
  -- The bound on the number of temporaries only gets weaker.
  obtain ⟨same, next, steady, room⟩ := more
  exact ⟨same, next, steady, by omega⟩

/-- A recorder is like itself, which makes every walk keep what a single call keeps. -/
def itself (n : Nat) {top : Nat} (bounded : top < 2 ^ 63) (vars : List (String × α)) :
    Likeness (backend : Backend (Recorder α) WalkError α Ref) backend (Nat × Nat) where
  top := top
  bounded := bounded
  state := Itself n top vars
  same temps area m x y := y = x ∧ Stretch (vars.reverse.map (·.1)) n top temps area m x
  whole loan x y := y = x ∧ x = ⟨.temp, Int64.ofNat loan.1, 0⟩
  refused := Eq
  fewer := Itself.fewer
  shorter := by
    rintro temps area m k x _ ⟨rfl, stretch⟩ fewer
    exact ⟨rfl, stretch.shorter fewer⟩
  one := by
    -- A single recorder does whatever it does twice in the same way.
    rintro temps b r _ area k x _ op ⟨rfl, next, steady, room⟩ _ ⟨rfl, dst⟩ writable
    obtain ⟨ran, steady⟩ := steady.one op dst writable
    exact ⟨_, _, ran, ran, rfl, next, steady, room⟩
  two := by
    rintro temps b r _ source target k x y _ _ op ⟨rfl, next, steady, room⟩ _ ⟨rfl, src⟩ ⟨rfl, dst⟩
      writable apart
    obtain ⟨ran, steady⟩ := steady.two op src dst writable apart
    exact ⟨_, _, ran, ran, rfl, next, steady, room⟩
  offset := by
    rintro temps b r _ area m k x _ _ _ ⟨rfl, stretch⟩ fewer
    exact ⟨_, _, rfl, rfl, rfl, stretch.drop fewer⟩
  alloc := by
    rintro temps b _ r m ⟨rfl, next, steady, room⟩ positive small
    have bounded : m < 2 ^ 63 := Nat.lt_of_le_of_lt small bounded
    rcases steady.alloc positive bounded small room with
      ⟨cause, refused, steady, room⟩ | ⟨r', granted, stretch, steady, room⟩
    · exact .inl ⟨_, _, _, _, refused, refused, rfl, rfl, next, steady, room⟩
    · exact .inr ⟨(next, m), _, _, _, _, granted, granted, ⟨rfl, rfl⟩, ⟨rfl, stretch⟩, rfl,
        next + 1, steady, room⟩
  free := by
    rintro temps b r _ ⟨i, m⟩ x _ ⟨rfl, next, steady, room⟩ ⟨rfl, rfl⟩
    have freed := steady.sound.free_ok (ε := WalkError)
    exact ⟨_, _, freed, freed, rfl, next, steady.closed, room⟩

omit [Elem α] in
/-- Before the first step a recorder is steady. -/
theorem itself_declared {n top loans : Nat} {limit : Int64} {seeds : NameMap α}
    (small : n < 2 ^ 63) (few : loans ≤ 2 ^ 63) :
    Itself n top seeds.entries.reverse [] loans (Program.declared (Int64.ofNat n) limit seeds)
      (Program.declared (Int64.ofNat n) limit seeds) := by
  refine ⟨rfl, 0, ?_, by omega⟩
  exact {
    -- No instruction has been written down, so there is nothing for the check to refuse.
    sound :=
      { header := ⟨rfl, by simp [Program.declared]⟩
        numbered := ⟨by omega, by simp, .nil⟩
        counter := rfl
        live := rfl
        sizes := ⟨small, by simp⟩
        checked := ⟨[], by simp [TempTable.find?], fun _ _ _ => rfl⟩ }
    declared := rfl
    tidy := fun i listed => absurd listed List.not_mem_nil
    live := rfl
    begun := rfl
    latest := fun before i listed => by simp [Program.declared, Recorder.new] at listed
    peak := fun _ => ⟨rfl, Program.isPeak_nil⟩ }

/-- Registers and declared variables are stretches, whatever is live. -/
theorem contexts_itself {n top : Nat} {seeds : NameMap α} {c : Context α Ref} (positive : 0 < n)
    (small : n ≤ top) (bounded : top < 2 ^ 63) (countable : seeds.entries.length ≤ 2 ^ 63)
    (declares : Program.Declares c (Int64.ofNat n) seeds) :
    (itself n bounded seeds.entries.reverse).Contexts c c n where
  paths := declares.paths
  paths' := declares.paths
  positive := positive
  small := small
  value temps := by
    rw [declares.value]
    exact ⟨rfl, .value, n, 0, .value, trivial, rfl, by omega, small⟩
  deriv temps := by
    rw [declares.deriv]
    exact ⟨rfl, .deriv, n, 0, .deriv, trivial, rfl, by omega, small⟩
  bound name := by
    -- A variable without a seed is unknown, and any other one has its place among the names.
    cases found : seeds.find? name with
    | none => exact .inl ⟨declares.unknown name found, declares.unknown name found⟩
    | some seed =>
      obtain ⟨i, listed, inside, operand⟩ := declares.known name seed found
      refine .inr ⟨_, _, operand, operand, rfl, fun temps => ⟨rfl, .var (Int64.ofNat i), n, 0, ?_,
        trivial, rfl, by omega, small⟩⟩
      refine .data ?_ (Nat.lt_of_lt_of_le inside countable)
      rw [List.reverse_reverse]
      exact listed

end Recorder

namespace Program

/-- The recording that a compiled program was made from is steady. -/
theorem steady_of_compile {root : Expr α} {paths limit : Int64} {seeds : NameMap α} {p : Program α}
    (compiled : compile root paths seeds limit = .ok p) {top : Nat} (bounded : top < 2 ^ 63)
    (fits : paths.toInt ≤ top ∧ paths.toInt * root.broadest ≤ top)
    (countable : seeds.entries.length ≤ 2 ^ 63 ∧ root.blocks ≤ 2 ^ 63) :
    ∃ (n next : Nat) (r : Recorder α), 0 < n ∧ paths = Int64.ofNat n ∧
      r.Steady n seeds.entries.reverse [] next top ∧ next ≤ 2 ^ 63 ∧ p.paths = r.paths ∧
      p.vars = seeds.names ∧ p.seeds = seeds.entries.map (·.2) ∧
      p.instrs = r.recorded.reverse ∧ p.peak = r.peakElements := by
  obtain ⟨c, r, text, declares, walked, _, rfl⟩ := exists_of_compile compiled
  -- A walk that gets through has paths.
  have some : ¬ paths ≤ 0 := by
    intro none
    rw [Walk.generate, Context.validate, declares.paths, if_pos none] at walked
    cases walked
  obtain ⟨n, rfl, exact⟩ := exists_eq_ofNat (Int64.le_of_lt (Int64.not_le.mp some))
  have positive : 0 < n := by
    rw [Int64.le_iff_toInt_le, Int64.toInt_zero] at some
    omega
  have small : n ≤ top := by omega
  have broad : n * root.broadest ≤ top := by
    rw [exact] at fits
    exact_mod_cast fits.2
  have contexts := Recorder.contexts_itself positive small bounded countable.1 declares
  have started : Recorder.Itself n top seeds.entries.reverse [] root.blocks
      (declared (Int64.ofNat n) limit seeds) (declared (Int64.ofNat n) limit seeds) :=
    Recorder.itself_declared (by omega) countable.2
  -- The walk has gone through, so the likeness has gone along with it to the end.
  rcases Likeness.generate_alike contexts root started broad with
    ⟨s, t, ran, _, _, next, steady, room⟩ | ⟨cause, _, s, _, stopped, _⟩
  · obtain rfl : r = s := by simpa using walked.symm.trans ran
    refine ⟨n, next, r, positive, rfl, steady, by omega, rfl, ?_, ?_, rfl, rfl⟩
    · rw [vars, getD_listed, steady.declared, List.reverse_reverse]
      rfl
    · rw [Program.seeds, getD_listed, steady.declared, List.reverse_reverse]
  · exact absurd (walked.symm.trans stopped) (by simp)

/-- A compiled program is safe, and is for the paths and variables it was compiled for. -/
theorem safe_of_compile {root : Expr α} {paths limit : Int64} {seeds : NameMap α} {p : Program α}
    (compiled : compile root paths seeds limit = .ok p)
    (fits : paths.toInt * root.broadest < 2 ^ 63)
    (countable : seeds.entries.length ≤ 2 ^ 63 ∧ root.blocks ≤ 2 ^ 63) :
    p.paths = paths ∧ p.vars = seeds.names ∧ p.validate = .ok () := by
  -- The largest size of all serves as the bound, so nothing is asked of the limit.
  obtain ⟨n, next, r, positive, rfl, steady, _, ofPaths, ofVars, _, instrs, _⟩ :=
    steady_of_compile compiled (by decide : 2 ^ 63 - 1 < 2 ^ 63) (by
      have := Int64.toInt_lt paths
      omega) countable
  have declared : r.declared.reverse.map (·.1) = seeds.names := by
    rw [steady.declared, List.reverse_reverse]
    rfl
  exact ⟨ofPaths.trans steady.sound.header.1, ofVars,
    steady.sound.validate positive ofPaths (ofVars.trans declared.symm) instrs⟩

/-- What can be relied on in a program that was compiled with seeds. -/
structure Disciplined (p : Program α) (seeds : NameMap α) : Prop where
  safe : p.validate = .ok ()
  written : ∀ i ∈ p.instrs, i.dst.space ≠ .var
  apart : ∀ i ∈ p.instrs, i.op = .copy ∨ i.op = .add ∨ i.op = .mul →
    Disjoint (i.src.spots i.len) (i.dst.spots i.len)
  begun : ∃ count ≤ 2 ^ 63, begun p.instrs = (List.range count).map Int64.ofNat
  latest : LatestFirst p.instrs
  names : p.vars = seeds.names ∧ p.vars.Pairwise (· < ·)
  aligned : p.seeds = seeds.entries.map (·.2)
  peak : Countable p.instrs → IsPeak p.instrs p.peak.toInt

/--
A compiled program is safe to run and disciplined.

It never writes to variables, no source overlaps its destination, temporaries are numbered as they
begin and the latest ends first, variables and seeds are those of the map in the order of names, and
the peak is the most elements of temporaries that are ever live, if that can be counted.
-/
theorem compiled_disciplined {root : Expr α} {paths limit : Int64} {seeds : NameMap α}
    {p : Program α} (compiled : compile root paths seeds limit = .ok p)
    (fits : paths.toInt * root.broadest < 2 ^ 63)
    (countable : seeds.entries.length ≤ 2 ^ 63 ∧ root.blocks ≤ 2 ^ 63) : p.Disciplined seeds := by
  obtain ⟨n, next, r, _, rfl, steady, few, _, ofVars, ofSeeds, instrs, peak⟩ :=
    steady_of_compile compiled (by decide : 2 ^ 63 - 1 < 2 ^ 63) (by
      have := Int64.toInt_lt paths
      omega) countable
  -- What holds of recorded instructions holds of those of the program.
  have tidy : ∀ i ∈ p.instrs, i.Tidy seeds.entries.reverse.length next (2 ^ 63 - 1) := by
    rw [instrs]
    exact fun i listed => steady.tidy i (List.mem_reverse.mp listed)
  exact {
    safe := (safe_of_compile compiled fits countable).2.2
    written := fun i listed => (tidy i listed).written
    apart := fun i listed two => by
      rcases two with op | op | op
      · exact (tidy i listed).apart .copy (by simp [Instr.task, op])
      · exact (tidy i listed).apart .add (by simp [Instr.task, op])
      · exact (tidy i listed).apart .mul (by simp [Instr.task, op])
    begun := ⟨next, few, by rw [instrs, steady.begun]⟩
    latest := by rw [instrs]; exact steady.latest
    names := ⟨ofVars, by rw [ofVars, NameMap.names, List.pairwise_map]; exact seeds.sorted⟩
    aligned := ofSeeds
    peak := fun countable => by
      rw [instrs] at countable ⊢
      rw [peak]
      exact (steady.peak countable).2 }

end Program

/-- The product is compiled. -/
theorem exists_compile_sample : ∃ p : Program α,
    Program.compile Walk.sampleTree 2 (seedsOf Walk.sampleInputs) 0 = .ok p := by
  -- Memory without a limit lets the walk through, and the compilation with it.
  obtain ⟨h', walked⟩ := Walk.Setup.succeeds (h := (Walk.sampleHost : Host α)) Walk.sample_setup
    (Int64.le_refl 0)
  have comparable : Comparable (Walk.sampleHost : Host α) _ _ _ _ _ _ := sample_comparable
  have evaluated := (congrFun (evaluate_eq_generate comparable.laid Host.backend Walk.sampleTree)
    Walk.sampleHost).trans (Action.adapt_ok walked)
  rcases comparable.stop_or_agree with
    ⟨cause, cause', h₁, stopped, _, _⟩ | ⟨s, p, m, _, _, compiled, _, _⟩
  · exact absurd (stopped.symm.trans evaluated) (by simp)
  · exact ⟨p, compiled⟩

/-- The product over doubles has a disciplined program. -/
theorem Program.compiled_disciplined_sample :
    (2 : Int64).toInt * (Walk.sampleTree : Expr Float).broadest < 2 ^ 63 ∧
    ∃ p : Program Float, compile Walk.sampleTree 2 (seedsOf Walk.sampleInputs) 0 = .ok p ∧
      p.Disciplined (seedsOf Walk.sampleInputs) := by
  -- The product is compiled by calculation, and its sizes are small.
  have fits : (2 : Int64).toInt * (Walk.sampleTree : Expr Float).broadest < 2 ^ 63 := by decide
  obtain ⟨p, compiled⟩ := exists_compile_sample (α := Float)
  exact ⟨fits, p, compiled, compiled_disciplined compiled fits (by decide)⟩

end Tangent
