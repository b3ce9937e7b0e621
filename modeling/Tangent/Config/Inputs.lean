import Tangent.Config.Basic

/-! The data that a description of a run draws for its inputs. -/

namespace Tangent.Config

/-- How a variable is drawn. -/
def distribution (v : Variable) : Sample.Distribution :=
  (Sample.Distribution.ofName? v.dist).getD .uniform

/-- Draws the data of variables one after the other. -/
def drawInputs (count : Nat) (g : Sample.Generator) :
    List (String × Variable) → List (String × Array Float)
  | [] => []
  | (name, v) :: rest =>
    let (data, g) := Sample.drawCount (distribution v) v.value count g
    (name, data) :: drawInputs count g rest

/-- The data of all variables, drawn in the order of their names from one generator. -/
def inputs (c : Config) : NameMap (Array Float) :=
  .ofList (drawInputs c.paths.toNatClampNeg (Sample.Generator.ofSeed c.randomSeed)
    c.declared.entries)

end Tangent.Config
