/-! How an index range is cut into chunks for several workers. -/

namespace Tangent

/-- Whether, and how finely, a range is cut. -/
structure Chunking where
  enabled : Bool
  workers : Int64
  smallest : Int64
deriving DecidableEq, Repr

/-- One chunk for everything. -/
def Chunking.sequential : Chunking := ⟨false, 1, 1⟩

/--
The chunks from `start` on, each of `step` indices and the last one cut at `n`.

A start that comes up again would come up for ever, so the fuel of `chunks` never runs out on
a loop that ends. On one that does not, what is left of it stands for no real chunks: kernels are
only reasoned about where the chunks of every range are proper.
-/
def chunksFrom (n step start : Int64) : Nat → List (Int64 × Int64)
  | 0 => []
  | fuel + 1 =>
    if start < n then (start, min (start + step) n) :: chunksFrom n step (start + step) fuel
    else []

/-- The chunks a range of `n` indices is cut into, as first index and end. -/
def Chunking.chunks (c : Chunking) (n : Int64) : List (Int64 × Int64) :=
  if n ≤ 0 then []
  else if !c.enabled || c.workers < 2 || n < 2 * c.smallest then [(0, n)]
  else
    -- Each worker gets an equal share, rounded up, unless that is too little to be worth it.
    let step := max ((n + c.workers - 1) / c.workers) c.smallest
    chunksFrom n step 0 0x10000000000000000

end Tangent
