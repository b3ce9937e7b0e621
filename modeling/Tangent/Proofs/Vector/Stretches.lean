import Tangent.Proofs.Vector.Counted
import Tangent.Proofs.Walk.Returns

/-!
Stretches of a block.

A block is cut into stretches of one width. Where a stretch starts and where it ends are products of
machine integers, and each of them wraps around on its own. So the check of a stretch tells that it
lies inside its block, and that others lie next to it, only as long as its end can be counted.
-/

namespace Tangent

variable {σ τ ε α β : Type}

/-- The end of a stretch is the number of stretches up to it times their width, wrapped around. -/
theorem toInt_stretch_end (i stride : Int64) :
    ((i + 1) * stride).toInt = ((i.toInt + 1) * stride.toInt).bmod (2 ^ 64) := by
  -- The sum may wrap around before the product does.
  rw [Int64.toInt_mul, Int64.toInt_add, Int64.toInt_one]
  exact Int.bmod_mul_bmod

/-- A number that machine integers can count is not wrapped around. -/
theorem bmod_of_countable {x : Int} (nonneg : 0 ≤ x) (countable : x < 2 ^ 63) :
    x.bmod (2 ^ 64) = x :=
  -- The balanced remainder is taken between minus 2 ^ 63 and 2 ^ 63.
  Int.bmod_eq_of_le (by omega) (by omega)

/-- A computation is itself on all of its state. -/
theorem Action.Shadows.self (body : Action σ ε α) : Action.Shadows id body body := by
  -- Its end is the same on both sides.
  intro s
  cases ran : body s <;> exact ran

namespace Backend

/-- A backend hands its own calls on. -/
theorem Watches.self (be : Backend σ ε α β) : be.Watches id be where
  -- Each call is handed on to itself.
  alloc _ := .self _
  free _ := .self _
  offset _ _ := .self _
  one _ _ _ := .self _
  two _ _ _ _ := .self _

/-- A stretch is the rest of its block from its start, if it passes the check. -/
theorem slot_eq_ok {be : Backend σ ε α β} {temp : Temp β} {i stride : Int64} {s t : σ} {x : β} :
    be.slot temp i stride s = .ok x t ↔
      0 ≤ i.toInt ∧ ((i.toInt + 1) * stride.toInt).bmod (2 ^ 64) ≤ temp.length.toInt ∧
        be.offset temp.buffer (i * stride) s = .ok x t := by
  -- The check compares machine integers, and is read as one of numbers here.
  have passes : ¬ ((i < 0 || (i + 1) * stride > temp.length) = true) ↔
      0 ≤ i.toInt ∧ ((i.toInt + 1) * stride.toInt).bmod (2 ^ 64) ≤ temp.length.toInt := by
    rw [Bool.or_eq_true, decide_eq_true_iff, decide_eq_true_iff, not_or, gt_iff_lt,
      Int64.lt_iff_toInt_lt, Int64.lt_iff_toInt_lt, Int64.toInt_zero, toInt_stretch_end,
      Int.not_lt, Int.not_lt]
  rw [slot, ← and_assoc, ← passes]
  split
  · rename_i outside
    simp [outside]
  · rename_i inside
    simp [inside]

/--
How a block of `n` elements is cut into stretches of one width.

The place of a buffer is where it starts in its block, and the rest of the block is the buffer at a
place of it. A backend may have buffers at some places only.
-/
structure Carves (be : Backend σ ε α β) (place : β → Int) (rest : Int → β) (reach : Int → Prop)
    (temp : Temp β) (n : Int64) : Prop where
  /-- What is looked at is the wrapped end and the wrapped start of a stretch. -/
  handed_iff : ∀ (i stride : Int64) (s : σ), (∃ x t, be.slot temp i stride s = .ok x t) ↔
    0 ≤ i.toInt ∧ ((i.toInt + 1) * stride.toInt).bmod (2 ^ 64) ≤ n.toInt ∧
      reach ((i.toInt * stride.toInt).bmod (2 ^ 64))
  /-- A stretch is the rest of its block from its wrapped start. -/
  placed : ∀ {i stride : Int64} {s t : σ} {x : β}, be.slot temp i stride s = .ok x t →
    x = rest ((i.toInt * stride.toInt).bmod (2 ^ 64)) ∧
      place x = (i.toInt * stride.toInt).bmod (2 ^ 64)
  /-- A stretch is what it is meant to be if its width is not negative and its end is countable. -/
  meant_iff : ∀ {i stride : Int64} {s t : σ} {x : β}, be.slot temp i stride s = .ok x t →
    (0 ≤ i.toInt ∧ 0 ≤ stride.toInt ∧ (i.toInt + 1) * stride.toInt ≤ n.toInt ∧
        place x = i.toInt * stride.toInt ↔
      0 ≤ stride.toInt ∧ (i.toInt + 1) * stride.toInt < 2 ^ 63)
  /-- Two stretches start together if the distance that is meant is lost by wrapping around. -/
  together_iff : ∀ {i j stride : Int64} {s t s' t' : σ} {x y : β},
    be.slot temp i stride s = .ok x t → be.slot temp j stride s' = .ok y t' →
      (place x = place y ↔ 2 ^ 64 ∣ (i.toInt - j.toInt) * stride.toInt)
  /-- Two stretches with countable ends have no element in common. -/
  apart : ∀ {i j stride : Int64} {s t s' t' : σ} {x y : β},
    be.slot temp i stride s = .ok x t → be.slot temp j stride s' = .ok y t' → i ≠ j →
      0 < stride.toInt → (i.toInt + 1) * stride.toInt < 2 ^ 63 →
      (j.toInt + 1) * stride.toInt < 2 ^ 63 →
      place x + stride.toInt ≤ place y ∨ place y + stride.toInt ≤ place x

namespace Carves

section Offsets

variable {be : Backend σ ε α β} {place : β → Int} {rest : Int → β} {reach : Int → Prop}
  {buffer : β} {n i j stride : Int64} {s t s' t' : σ} {x y : β}

/-- A stretch is at its wrapped start if offsets lead to the place they name. -/
theorem eq_rest
    (moved : ∀ off s x t, be.offset buffer off s = .ok x t →
      x = rest off.toInt ∧ place x = off.toInt)
    (handed : be.slot ⟨buffer, n, false⟩ i stride s = .ok x t) :
    x = rest ((i.toInt * stride.toInt).bmod (2 ^ 64)) ∧
      place x = (i.toInt * stride.toInt).bmod (2 ^ 64) := by
  -- A stretch that is handed out was asked for by its offset.
  obtain ⟨_, _, offset⟩ := slot_eq_ok.mp handed
  rw [← Int64.toInt_mul]
  exact moved _ _ _ _ offset

/-- A stretch with a countable end ends inside its block, and starts where it is meant to. -/
theorem meant_of_countable
    (moved : ∀ off s x t, be.offset buffer off s = .ok x t →
      x = rest off.toInt ∧ place x = off.toInt)
    (handed : be.slot ⟨buffer, n, false⟩ i stride s = .ok x t) (width : 0 ≤ stride.toInt)
    (countable : (i.toInt + 1) * stride.toInt < 2 ^ 63) :
    0 ≤ i.toInt ∧ (i.toInt + 1) * stride.toInt ≤ n.toInt ∧ place x = i.toInt * stride.toInt := by
  obtain ⟨nonneg, inside, _⟩ := slot_eq_ok.mp handed
  -- The start lies before the end, so neither of them is wrapped around.
  have start : 0 ≤ i.toInt * stride.toInt := Int.mul_nonneg nonneg width
  have stop : (i.toInt + 1) * stride.toInt = i.toInt * stride.toInt + stride.toInt := by
    rw [Int.add_mul, Int.one_mul]
  rw [bmod_of_countable (by omega) countable] at inside
  rw [(eq_rest moved handed).2, bmod_of_countable start (by omega)]
  exact ⟨nonneg, inside, rfl⟩

/-- A block is cut by offsets that lead to the place they name. -/
theorem of_offset
    (moved : ∀ off s x t, be.offset buffer off s = .ok x t →
      x = rest off.toInt ∧ place x = off.toInt)
    (found : ∀ off s, (∃ x t, be.offset buffer off s = .ok x t) ↔ reach off.toInt) :
    be.Carves place rest reach ⟨buffer, n, false⟩ n where
  handed_iff i stride s := by
    -- The check looks at the end, and the offset that is taken is the start.
    simp only [slot_eq_ok, exists_and_left, found, Int64.toInt_mul]
  placed := eq_rest moved
  meant_iff {i stride s t x} handed := by
    constructor
    · -- An end inside the block is a machine integer like the length of the block.
      rintro ⟨_, width, inside, _⟩
      exact ⟨width, Int.lt_of_le_of_lt inside n.toInt_lt⟩
    · rintro ⟨width, countable⟩
      obtain ⟨nonneg, inside, start⟩ := meant_of_countable moved handed width countable
      exact ⟨nonneg, width, inside, start⟩
  together_iff first second := by
    -- Two wrapped starts are the same if their distance is a multiple of what is lost.
    rw [(eq_rest moved first).2, (eq_rest moved second).2,
      Int.bmod_eq_bmod_iff_bmod_sub_eq_zero, ← Int.sub_mul]
    exact ⟨Int.dvd_of_bmod_eq_zero, Int.bmod_eq_zero_of_dvd⟩
  apart {i j stride s t s' t' x y} first second differ positive countable countable' := by
    have width := Int.le_of_lt positive
    have numbers : i.toInt ≠ j.toInt := fun same => differ (Int64.toInt_inj.mp same)
    rw [(meant_of_countable moved first width countable).2.2,
      (meant_of_countable moved second width countable').2.2]
    -- The stretch with the smaller number ends where the next one starts, or before it.
    have next {a b : Int} (before : a < b) : a * stride.toInt + stride.toInt ≤ b * stride.toInt :=
      calc a * stride.toInt + stride.toInt = (a + 1) * stride.toInt := by
            rw [Int.add_mul, Int.one_mul]
        _ ≤ b * stride.toInt := Int.mul_le_mul_of_nonneg_right before width
    exact (Int.lt_or_gt_of_ne numbers).imp next next

end Offsets

/-- A block is cut as on the backend that is watched. -/
theorem of_watches {part : τ → σ} {outer : Backend τ ε α β} {inner : Backend σ ε α β}
    {place : β → Int} {rest : Int → β} {reach : Int → Prop} {temp : Temp β} {n : Int64}
    (watches : outer.Watches part inner) (carves : inner.Carves place rest reach temp n) :
    outer.Carves place rest reach temp n := by
  have within {i stride : Int64} {s t : τ} {x : β} (handed : outer.slot temp i stride s = .ok x t) :
      inner.slot temp i stride (part s) = .ok x (part t) := by
    rw [watches.slot temp i stride s, handed]
  exact {
    -- A stretch of one backend is one of the other, handed out in the part that is watched.
    handed_iff := fun i stride s => by
      rw [← carves.handed_iff i stride (part s)]
      constructor
      · rintro ⟨x, t, handed⟩
        exact ⟨x, _, within handed⟩
      · rintro ⟨x, t, handed⟩
        obtain ⟨t', handed', _⟩ := (watches.slot temp i stride).exists_ok handed
        exact ⟨x, t', handed'⟩
    placed := fun handed => carves.placed (within handed)
    meant_iff := fun handed => carves.meant_iff (within handed)
    together_iff := fun first second => carves.together_iff (within first) (within second)
    apart := fun first second => carves.apart (within first) (within second) }

end Carves

end Backend

namespace Host

/-- The rest of a view is there from every place up to its end. -/
theorem offset_eq_ok {v w : View} {off : Int64} {h g : Host α} :
    (offset v off : Action (Host α) ε View) h = .ok w g ↔
      (0 ≤ off.toInt ∧ off.toInt ≤ v.length) ∧ w = v.drop off.toInt.toNat ∧ g = h := by
  -- An offset is refused if it is negative or behind the end, where clamping makes no difference.
  have outside : (off < 0 || off.toNatClampNeg > v.length) = true ↔
      ¬ (0 ≤ off.toInt ∧ off.toInt ≤ v.length) := by
    rw [Bool.or_eq_true, decide_eq_true_iff, decide_eq_true_iff, Int64.lt_iff_toInt_lt,
      Int64.toInt_zero, Int64.toNatClampNeg]
    omega
  rw [offset]
  split
  · rename_i stopped
    exact iff_of_false (by simp) (fun found => outside.mp stopped found.1)
  · rename_i passed
    rw [outside, not_not] at passed
    constructor
    · intro found
      cases found
      exact ⟨passed, rfl, rfl⟩
    · rintro ⟨_, rfl, rfl⟩
      rfl

/-- Memory cuts a block that it has lent. -/
theorem carves_of_acquire [Elem α] {n : Int64} {h g : Host α} {temp : Temp View}
    (acquired : (backend.acquire n : Action (Host α) ε _) h = .ok (.ok temp) g) :
    (backend : Backend _ ε α View).Carves (fun v => v.start)
      (fun place => temp.buffer.drop place.toNat) (fun place => 0 ≤ place ∧ place ≤ n.toInt)
      temp n := by
  -- Only a request that is granted has a block, and it starts at the first place.
  rcases alloc_cases (ε := ε) n h with ⟨cause, asked⟩ | asked | ⟨m, _, small, rfl, asked⟩
  · cases (Action.bind_ok asked).symm.trans acquired
  · cases (Action.bind_error asked).symm.trans acquired
  · cases (Action.bind_ok asked).symm.trans acquired
    rw [toInt_ofNat_of_le_room small]
    refine .of_offset (fun off s x t found => ?_) (fun off s => ?_)
    · obtain ⟨⟨nonneg, _⟩, rfl, _⟩ := offset_eq_ok.mp found
      refine ⟨rfl, ?_⟩
      show ((0 + off.toInt.toNat : Nat) : Int) = off.toInt
      omega
    · constructor
      · rintro ⟨x, t, found⟩
        exact (offset_eq_ok.mp found).1
      · intro inside
        exact ⟨_, _, offset_eq_ok.mpr ⟨inside, rfl, rfl⟩⟩

end Host

/-- A recorder cuts a temporary that it has begun, and takes any place for one of it. -/
theorem Recorder.carves_of_acquire [Elem α] {n : Int64} {r g : Recorder α} {temp : Temp Ref}
    (acquired : (backend.acquire n : Action (Recorder α) ε _) r = .ok (.ok temp) g) :
    (backend : Backend _ ε α Ref).Carves (fun ref => ref.offset.toInt)
      (fun place => { temp.buffer with offset := Int64.ofInt place }) (fun _ => True) temp n := by
  rcases alloc_cases (ε := ε) n r with ⟨cause, asked⟩ | asked
  · cases (Action.bind_ok asked).symm.trans acquired
  · cases (Action.bind_ok asked).symm.trans acquired
    refine .of_offset (fun off s x t found => ?_) (fun off s => ?_)
    · -- An operand is at the offset that was asked for, whatever that is.
      cases found
      simp
    · exact iff_of_true ⟨_, _, rfl⟩ trivial

/--
Which stretches of a borrowed block are handed out, where they start and when they lie apart.

This holds of the blocks of memory and of those of a recording, also with layers around them that
hand every call on, and for all machine integers. Memory has views of the places up to the end of a
block, and a recording has operands at all places.
-/
theorem stretches_meant_iff_countable [Elem α] (n : Int64) :
    (∀ (part : σ → Host α) (be : Backend σ ε α View), be.Watches part Host.backend →
      ∀ (s t : σ) (temp : Temp View), be.acquire n s = .ok (.ok temp) t →
        be.Carves (fun v => v.start) (fun place => temp.buffer.drop place.toNat)
          (fun place => 0 ≤ place ∧ place ≤ n.toInt) temp n) ∧
    ∀ (part : τ → Recorder α) (be : Backend τ ε α Ref), be.Watches part Recorder.backend →
      ∀ (s t : τ) (temp : Temp Ref), be.acquire n s = .ok (.ok temp) t →
        be.Carves (fun ref => ref.offset.toInt)
          (fun place => { temp.buffer with offset := Int64.ofInt place }) (fun _ => True) temp n := by
  -- Both kinds of buffers are carved in their own way, which watching does not change.
  constructor
  · intro part be watches s t temp acquired
    have within := watches.acquire n s
    rw [acquired] at within
    exact .of_watches watches (Host.carves_of_acquire within)
  · intro part be watches s t temp acquired
    have within := watches.acquire n s
    rw [acquired] at within
    exact .of_watches watches (Recorder.carves_of_acquire within)

/-- A block of six elements, the first one of a memory. -/
def sixElements : Temp View := ⟨⟨0, 0, 6⟩, 6, false⟩

/--
Stretches of two elements lie apart in a block of six of counted memory, which has no fourth one.

A recording has a stretch of negative width, which starts before its block.
-/
theorem stretches_meant_iff_countable_six :
    (∃ c : Counted (Host Float) View,
      ((Counted.backend Host.backend).acquire 6 : Action _ Empty _)
        (Counted.new (Host.new 0 .sequential)) = .ok (.ok sixElements) c ∧
      (∃ v w t u, ((Counted.backend Host.backend).slot sixElements 0 2 : Action _ Empty _) c =
          .ok v t ∧
        ((Counted.backend Host.backend).slot sixElements 2 2 : Action _ Empty _) c = .ok w u ∧
        (v.start + 2 ≤ w.start ∨ w.start + 2 ≤ v.start)) ∧
      ¬ ∃ v t, ((Counted.backend Host.backend).slot sixElements 3 2 : Action _ Empty _) c =
        .ok v t) ∧
    ∃ (temp : Temp Ref) (r : Recorder Float),
      (Recorder.backend.acquire 6 : Action _ Empty _) (Recorder.new 2 0) = .ok (.ok temp) r ∧
      ∃ ref t, (Recorder.backend.slot temp 1 (-3) : Action _ Empty _) r = .ok ref t ∧
        ref.offset.toInt = -3 := by
  obtain ⟨memory, recording⟩ := stretches_meant_iff_countable (α := Float) (ε := Empty)
    (σ := Counted (Host Float) View) (τ := Recorder Float) 6
  constructor
  · -- Memory lends its first block, and the layer around it counts that.
    obtain ⟨c, acquired⟩ : ∃ c : Counted (Host Float) View,
        ((Counted.backend Host.backend).acquire 6 : Action _ Empty _)
          (Counted.new (Host.new 0 .sequential)) = .ok (.ok sixElements) c :=
      ⟨_, Action.bind_ok (Counted.alloc_ok (s := Counted.new (Host.new 0 .sequential))
        (Host.alloc_granted (m := 6) (by decide) (by decide) rfl))⟩
    have carves := memory _ _ (Counted.watches Host.backend) _ _ _ acquired
    obtain ⟨v, t, first⟩ := (carves.handed_iff 0 2 c).mpr (by decide)
    obtain ⟨w, u, third⟩ := (carves.handed_iff 2 2 c).mpr (by decide)
    have apart := carves.apart first third (by decide) (by decide) (by decide) (by decide)
    rw [show (2 : Int64).toInt = 2 from rfl] at apart
    refine ⟨c, acquired, ⟨v, w, t, u, first, third, by omega⟩, ?_⟩
    rw [carves.handed_iff]
    decide
  · obtain ⟨temp, r, acquired⟩ : ∃ temp r,
        (Recorder.backend.acquire 6 : Action (Recorder Float) Empty _) (Recorder.new 2 0) =
          .ok (.ok temp) r := ⟨_, _, rfl⟩
    have carves := recording _ _ (.self Recorder.backend) _ _ _ acquired
    obtain ⟨ref, t, handed⟩ := (carves.handed_iff 1 (-3) r).mpr (by decide)
    exact ⟨temp, r, acquired, ref, t, handed, by rw [(carves.placed handed).2]; decide⟩

/-- A stretch far behind a block of six elements is handed out, at the place of the first one. -/
theorem uncountable_stretch_handed_out :
    ∃ (h : Host Float) (v w : View),
      (Host.backend.acquire 6 : Action (Host Float) Empty _) (Host.new 0 .sequential) =
        .ok (.ok sixElements) h ∧
      (Host.backend.slot sixElements 0 4 : Action (Host Float) Empty _) h = .ok v h ∧
      (Host.backend.slot sixElements 0x4000000000000000 4 : Action (Host Float) Empty _) h =
        .ok w h ∧
      ¬ ((0x4000000000000000 : Int64).toInt + 1) * (4 : Int64).toInt ≤ (6 : Int64).toInt ∧
      v.start = w.start :=
  -- The product of the two integers wraps around to zero.
  ⟨_, _, _, rfl, rfl, rfl, by decide, rfl⟩

end Tangent
