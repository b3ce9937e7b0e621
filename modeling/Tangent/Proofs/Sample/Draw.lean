import Mathlib
import Tangent.Sample.Draw

/-!
Draws as stretches of one stream.

A generator that is asked again and again gives a stream of numbers. What is drawn is a function of
the stream and of the place in it at which drawing starts, and drawing moves that place on by a
count that only depends on the distribution and on how many values are wanted.
-/

namespace Tangent.Sample

/-- The numbers that a generator gives, one after the other. -/
def Generator.stream (g : Generator) (k : Nat) : Float := (Generator.next^[k] g).unit.1

/-- The next number of a generator, and the generator after it. -/
theorem Generator.unit_iterate (g : Generator) (k : Nat) :
    (Generator.next^[k] g).unit = (g.stream k, Generator.next^[k + 1] g) := by
  -- Drawing a number leaves the generator one step further on.
  rw [Function.iterate_succ_apply']
  rfl

/-- How many numbers of the stream it takes to draw some values; normal ones come in pairs. -/
def Distribution.uses (d : Distribution) (count : Nat) : Nat :=
  match d with
  | .uniform => count
  | .normal => 2 * ((count + 1) / 2)
  | .constant => 0

/-- The value of a path, if drawing starts at some place of a stream. -/
def Distribution.valueAt (d : Distribution) (value : Float) (stream : Nat → Float)
    (start path : Nat) : Float :=
  match d with
  | .uniform => stream (start + path)
  | .normal =>
    let u := stream (start + 2 * (path / 2))
    let v := stream (start + 2 * (path / 2) + 1)
    if path % 2 = 0 then (boxMuller (1.0 - u) v).1 else (boxMuller (1.0 - u) v).2
  | .constant => value

/-- The values of the first paths, if drawing starts at some place of a stream. -/
def Distribution.values (d : Distribution) (value : Float) (stream : Nat → Float)
    (start count : Nat) : List Float :=
  (List.range count).map (d.valueAt value stream start)

variable (value : Float) (stream : Nat → Float) (start count : Nat)

/-- One path further is one number further on. -/
theorem uniform_valueAt_succ (path : Nat) :
    Distribution.uniform.valueAt value stream start (path + 1) =
      Distribution.uniform.valueAt value stream (start + 1) path := by
  -- Path and start count together.
  simp only [Distribution.valueAt, Nat.add_assoc, Nat.add_comm 1]

/-- Two paths further is one pair of numbers further on, with the same place in the pair. -/
theorem normal_valueAt_add_two (path : Nat) :
    Distribution.normal.valueAt value stream start (path + 2) =
      Distribution.normal.valueAt value stream (start + 2) path := by
  -- The two paths of a pair share its numbers and differ in parity.
  have pair : start + 2 * ((path + 2) / 2) = start + 2 + 2 * (path / 2) := by omega
  have parity : (path + 2) % 2 = path % 2 := by omega
  simp only [Distribution.valueAt, pair, parity]

/-- The first uniform value is the next number, and the others follow it. -/
theorem uniform_values_succ : Distribution.uniform.values value stream start (count + 1) =
    stream start :: Distribution.uniform.values value stream (start + 1) count := by
  -- Paths after the first one are counted from the next number on.
  simp only [Distribution.values, List.range_succ_eq_map, List.map_cons, List.map_map,
    Function.comp_def, Nat.succ_eq_add_one, uniform_valueAt_succ]
  rfl

/-- Two normal values take the next two numbers, and the others follow them. -/
theorem normal_values_add_two : Distribution.normal.values value stream start (count + 2) =
    (boxMuller (1.0 - stream start) (stream (start + 1))).1 ::
      (boxMuller (1.0 - stream start) (stream (start + 1))).2 ::
        Distribution.normal.values value stream (start + 2) count := by
  -- Paths after the first pair are counted from the next pair of numbers on.
  simp only [Distribution.values, List.range_succ_eq_map, List.map_cons, List.map_map,
    Function.comp_def, Nat.succ_eq_add_one, Nat.add_assoc, Nat.reduceAdd, normal_valueAt_add_two]
  rfl

variable (g : Generator)

/-- Uniform values are the next numbers of the stream. -/
theorem uniformFrom_eq (drawn : Array Float) :
    uniformFrom drawn (Generator.next^[start] g) count =
      (drawn ++ (Distribution.uniform.values value g.stream start count).toArray,
        Generator.next^[start + Distribution.uniform.uses count] g) := by
  -- One number is drawn at a time, and the others start one place further.
  induction count generalizing drawn start with
  | zero => simp [uniformFrom, Distribution.values, Distribution.uses]
  | succ count ih =>
    rw [uniformFrom, g.unit_iterate, ih, uniform_values_succ]
    simp [Distribution.uses, Nat.add_assoc, Nat.add_comm 1]

/-- A pair of normal values takes the next two numbers of the stream. -/
theorem normalPair_iterate : normalPair (Generator.next^[start] g) =
    (boxMuller (1.0 - g.stream start) (g.stream (start + 1)), Generator.next^[start + 2] g) := by
  -- The two numbers are drawn one after the other.
  simp only [normalPair, g.unit_iterate]

/-- Normal values come of pairs of numbers, the last of which is used up in full. -/
theorem normalFrom_eq (drawn : Array Float) :
    normalFrom drawn (Generator.next^[start] g) count =
      (drawn ++ (Distribution.normal.values value g.stream start count).toArray,
        Generator.next^[start + Distribution.normal.uses count] g) := by
  induction count using Nat.twoStepInduction generalizing drawn start with
  | zero => simp [normalFrom, Distribution.values, Distribution.uses]
  | one =>
    -- The second value of the last pair is left out, but its number is gone.
    have single : Distribution.normal.values value g.stream start 1 =
        [(boxMuller (1.0 - g.stream start) (g.stream (start + 1))).1] := rfl
    rw [normalFrom, normalPair_iterate, single]
    rfl
  | more count ih _ =>
    have used : start + Distribution.normal.uses (count + 2) =
        start + 2 + Distribution.normal.uses count := by
      simp only [Distribution.uses]
      omega
    rw [normalFrom, normalPair_iterate]
    simp only [ih, normal_values_add_two, used, List.push_append_toArray]

/-- What is drawn depends on the stream and on the place at which drawing starts. -/
theorem drawCount_eq (d : Distribution) :
    drawCount d value count (Generator.next^[start] g) =
      ((d.values value g.stream start count).toArray, Generator.next^[start + d.uses count] g) := by
  -- Constants use no numbers, and the other two go along the stream.
  cases d with
  | uniform => rw [drawCount, uniformFrom_eq value, Array.empty_append]
  | normal => rw [drawCount, normalFrom_eq value, Array.empty_append]
  | constant =>
    have values : Distribution.constant.values value g.stream start count =
        List.replicate count value := by
      rw [List.eq_replicate_iff]
      simp [Distribution.values, Distribution.valueAt]
    rw [drawCount, values]
    simp [Distribution.uses]

end Tangent.Sample
