import Tangent.Decimal.Layout
import Tangent.Metrics.Meter
import Tangent.NameMap

/-! Measurements as text, one family of series after the other. -/

namespace Tangent

/-- Series that are measured alike. -/
structure Family where
  name : String
  help : String
  kind : String
  /-- What follows the name of each series, and its value. -/
  samples : List (String × Int)

namespace Family

/-- The number of a series. -/
def number (n : Int) : String := Decimal.exact (Binary64.nearest (n < 0) n.natAbs 1)

/-- The lines of a family, of which there are none without series. -/
def lines (f : Family) : List String :=
  let name := "autoexpr_" ++ f.name
  if f.samples.isEmpty then []
  else
    s!"# HELP {name} {f.help}" :: s!"# TYPE {name} {f.kind}" ::
      f.samples.map (fun (label, n) => name ++ label ++ " " ++ number n)

end Family

namespace Meter

/-- A label as it follows the name of a series. -/
def label (name value : String) : String := "\x7b" ++ name ++ "=\"" ++ value ++ "\"\x7d"

/-- Series with labels, in the order of these and without those that never counted. -/
def labelled (name : String) (counts : List (String × Nat)) : List (String × Int) :=
  (NameMap.ofList (counts.filter (fun entry => entry.2 != 0))).entries.map
    (fun (value, n) => (label name value, (n : Int)))

/-- The families in the order of their names. How long a run took is not told, only how many. -/
def families (m : Meter) : List Family :=
  [⟨"kernel_calls_total", "Vector kernel invocations by operation.", "counter",
      labelled "op" (Op.known.map (fun op => (op.symbol, m.kernelCalls.count op)))⟩,
    ⟨"run_duration_seconds", "Wall time of a program execution.", "histogram",
      [("_count", m.runs)]⟩,
    ⟨"runs_total", "Program executions by outcome.", "counter",
      labelled "outcome" [("error", m.failed), ("ok", m.succeeded)]⟩,
    ⟨"temp_allocations_total", "Temporary buffers allocated while running programs.", "counter",
      [("", m.allocations)]⟩,
    ⟨"temp_live_elements", "Elements currently held by temporary buffers.", "gauge",
      [("", m.liveElements)]⟩,
    ⟨"temp_releases_total", "Temporary buffers released while running programs.", "counter",
      [("", m.releases)]⟩]

/-- All measurements as text. -/
def exposition (m : Meter) : String :=
  String.join ((m.families.flatMap Family.lines).map (· ++ "\n"))

end Meter

end Tangent
