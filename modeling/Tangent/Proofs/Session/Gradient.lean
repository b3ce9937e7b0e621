import Tangent.Proofs.Session.Affordable

/-!
What a session reports along its variables.

A gradient runs one pass along each variable of the expression, in the order of their names. It
reports the values of the first pass and the derivatives of all of them. Without variables there is
nothing to differentiate along, and it reports what a run does.
-/

namespace Tangent.Session

variable {s : Session} {whole : Array Float × Array Float}
  {found : String → Array Float × Array Float}

/-- What a gradient reports on its passes, or what a run does if there were none. -/
def gradientReport (s : Session) (whole : Array Float × Array Float) :
    List (String × Array Float × Array Float) → String
  | [] => s.report whole
  | (name, value, deriv) :: rest =>
    let found := (name, value, deriv) :: rest
    let width := found.foldl (fun width entry => max width ("d/d" ++ entry.1).utf8ByteSize) 5
    -- The values are those of the first pass, which has the values of every other one.
    heading (s.config.expression.write.toOption.getD "") s.config.paths ++
      summaryLine width "value" value ++
      String.join (found.map fun entry => summaryLine width ("d/d" ++ entry.1) entry.2.2)

end Tangent.Session
