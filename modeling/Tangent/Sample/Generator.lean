/-! The generator of random numbers: a linear congruence on 128 bits with a scrambled output. -/

namespace Tangent.Sample

/-- A generator, which is its state. -/
structure Generator where
  state : BitVec 128
deriving DecidableEq, Repr

namespace Generator

/-- The multiplier of the congruence. -/
def multiplier : BitVec 128 :=
  BitVec.ofNat 128 0x2360ed051fc65da44385df649fccf645

/-- The increment of the congruence. -/
def increment : BitVec 128 :=
  BitVec.ofNat 128 0x5851f42d4c957f2d14057b7ef767814f

/-- The generator of a seed. The lower half of its state is the seed with other bits flipped. -/
def ofSeed (seed : UInt64) : Generator :=
  ⟨seed.toBitVec ++ (seed ^^^ 0x9e3779b97f4a7c15).toBitVec⟩

/-- The upper half of the state. -/
def high (g : Generator) : UInt64 := ⟨g.state.extractLsb' 64 64⟩

/-- The lower half of the state. -/
def low (g : Generator) : UInt64 := ⟨g.state.extractLsb' 0 64⟩

/-- The generator one step on. -/
def next (g : Generator) : Generator := ⟨g.state * multiplier + increment⟩

/-- The sixty-four bits that a state shows. -/
def scrambled (g : Generator) : UInt64 :=
  let h := g.high ^^^ (g.high >>> 32)
  let h := h * 0xda942042e4dd58b5
  let h := h ^^^ (h >>> 48)
  h * (g.low ||| 1)

/-- Into how many steps the numbers from zero up to one are divided: two to the power 53. -/
def unitSteps : UInt64 := 0x20000000000000

/-- A number below one out of fifty-three bits. -/
def unitOf (bits : UInt64) : Float := (bits % unitSteps).toFloat / unitSteps.toFloat

/-- A number from zero up to one, and the generator after it. -/
def unit (g : Generator) : Float × Generator := (unitOf g.next.scrambled, g.next)

end Generator

end Tangent.Sample
