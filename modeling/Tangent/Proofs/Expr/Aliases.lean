import Tangent.Proofs.Expr.Document

/-!
Aliases in expressions.

An alias says what it stands for wherever a number, a name or an expression is read. It is taken as
it stands in three places: as a key, for a list of operands, and behind another alias. So an
expression is read as if its aliases were written out, unless one of them stands in such a place.
-/

namespace Tangent

open Yaml (Node Scalar)

namespace Yaml.Node

mutual

/-- A node with every alias replaced by what it stands for. -/
def resolved : Node → Node
  | .scalar line s => .scalar line s
  | .list line tag items => .list line tag (resolvedAll items)
  | .mapping line tag entries => .mapping line tag (resolvedEntries entries)
  | .alias _ _ target => target.resolved
  | .loop content => .loop content

/-- Nodes with every alias replaced. -/
def resolvedAll : List Node → List Node
  | [] => []
  | node :: rest => node.resolved :: resolvedAll rest

/-- Keys and values with every alias replaced. -/
def resolvedEntries : List (Node × Node) → List (Node × Node)
  | [] => []
  | (key, value) :: rest => (key.resolved, value.resolved) :: resolvedEntries rest

end

end Yaml.Node

namespace Expr

/-- What a node can be taken for as it stands. -/
inductive Role where
  | key
  | operands
  | target
deriving DecidableEq

mutual

/-- The nodes that reading an expression takes as they stand, and what it takes them for. -/
def unfollowed : Node → List (Role × Node)
  | .alias _ _ target => (.target, target) :: unfollowed target
  | .mapping _ _ [(key, body)] =>
    (.key, key) ::
      -- The key is not followed: it is asked for its text as it stands.
      match kindOf? (keyText key) with
      | some .add => (.operands, body) :: unfollowedOperands body
      | some .mul => (.operands, body) :: unfollowedOperands body
      | some .exp => unfollowed body
      | _ => []
  | _ => []

/-- The nodes that are taken as they stand among operands. -/
def unfollowedOperands : Node → List (Role × Node)
  | .list _ _ items => unfollowedAll items
  | _ => []

/-- The nodes that are taken as they stand among several expressions. -/
def unfollowedAll : List Node → List (Role × Node)
  | [] => []
  | node :: rest => unfollowed node ++ unfollowedAll rest

end

/-- No alias is taken as it stands, except as a key. -/
def Direct (taken : List (Role × Node)) : Prop :=
  ∀ role node, (role, node) ∈ taken → role ≠ .key → node.isAlias = false

/-- Every key that is taken as it stands says what it stands for. -/
def Spoken (taken : List (Role × Node)) : Prop :=
  ∀ key, (.key, key) ∈ taken → keyText key.resolved = keyText key

section Taken

variable {role : Role} {node : Node} {taken more : List (Role × Node)}

/-- Where no node is taken, no alias is. -/
@[simp] theorem direct_nil : Direct [] := by simp [Direct]

/-- Where no node is taken, no key is. -/
@[simp] theorem spoken_nil : Spoken [] := by simp [Spoken]

/-- One more node may be an alias only as a key. -/
@[simp] theorem direct_cons :
    Direct ((role, node) :: taken) ↔ (role ≠ .key → node.isAlias = false) ∧ Direct taken := by
  -- The first node is looked at, and then the others.
  simp [Direct, or_imp, forall_and]

/-- One more node has to say what it stands for only as a key. -/
@[simp] theorem spoken_cons : Spoken ((role, node) :: taken) ↔
    (role = .key → keyText node.resolved = keyText node) ∧ Spoken taken := by
  -- The first node is looked at if it is a key, and then the others.
  simp only [Spoken, List.mem_cons, Prod.mk.injEq, or_imp, forall_and, and_imp]
  constructor
  · intro ⟨own, others⟩
    exact ⟨fun isKey => own node isKey.symm rfl, others⟩
  · intro ⟨own, others⟩
    exact ⟨fun key isKey same => same ▸ own isKey.symm, others⟩

/-- No alias is taken in two lists together when none is in either of them. -/
@[simp] theorem direct_append : Direct (taken ++ more) ↔ Direct taken ∧ Direct more := by
  -- The nodes of both lists are looked at.
  simp [Direct, or_imp, forall_and]

/-- The keys of two lists together say what they stand for when those of each list do. -/
@[simp] theorem spoken_append : Spoken (taken ++ more) ↔ Spoken taken ∧ Spoken more := by
  -- The keys of both lists are looked at.
  simp [Spoken, or_imp, forall_and]

/-- No alias is taken as it stands when none stands for operands or for another alias. -/
theorem direct_iff : Direct taken ↔
    (∀ body, (.operands, body) ∈ taken → body.isAlias = false) ∧
    ∀ target, (.target, target) ∈ taken → target.isAlias = false := by
  -- A node that is taken is a key, a body of operands or a target.
  constructor
  · intro direct
    exact ⟨fun body among => direct .operands body among (by decide),
      fun target among => direct .target target among (by decide)⟩
  · intro ⟨operands, targets⟩ role node among other
    cases role with
    | key => exact absurd rfl other
    | operands => exact operands node among
    | target => exact targets node among

end Taken

variable {α : Type} [Numeral α]

/-- An alias of a number says the number. -/
theorem numberOf?_resolved (node : Node) :
    (numberOf? node.resolved : Option α) = numberOf? node := by
  -- An alias is followed by both, and other nodes stay what they are.
  match node with
  | .alias _ _ target => exact numberOf?_resolved target
  | .scalar _ _ | .list _ _ _ | .mapping _ _ _ | .loop _ => simp only [Node.resolved, numberOf?]

section Scalars

variable [ScalarText]

/-- An alias of a name says the name. -/
theorem nameOf?_resolved (node : Node) : nameOf? node.resolved = nameOf? node := by
  -- An alias is followed by both, and other nodes stay what they are.
  match node with
  | .alias _ _ target => exact nameOf?_resolved target
  | .scalar _ _ | .list _ _ _ | .mapping _ _ _ | .loop _ => simp only [Node.resolved, nameOf?]

/-- A mapping is read as if aliases were written out, if its value is. -/
theorem entry_iff_resolved {line : Nat} {tag : Option String} {key body : Node}
    (spoken : Spoken (unfollowed (.mapping line tag [(key, body)])))
    (inOperands : ∀ kind (es : List (Expr α)), Spoken (unfollowedOperands body) →
      (ofOperands kind body = .ok es ↔ ofOperands kind body.resolved = .ok es ∧
        body.isAlias = false ∧ Direct (unfollowedOperands body)))
    (inExponent : ∀ e : Expr α, Spoken (unfollowed body) →
      (ofNode body = .ok e ↔ ofNode body.resolved = .ok e ∧ Direct (unfollowed body)))
    (e : Expr α) :
    ofNode (.mapping line tag [(key, body)]) = .ok e ↔
      ofNode (Node.mapping line tag [(key, body)]).resolved = .ok e ∧
        Direct (unfollowed (.mapping line tag [(key, body)])) := by
  -- The key is taken as it stands in both, so nothing is asked of it but its text.
  simp only [unfollowed, spoken_cons, direct_cons, ne_eq, not_true, false_imp_iff, true_and,
    forall_const] at spoken ⊢
  obtain ⟨own, inner⟩ := spoken
  simp only [Node.resolved, Node.resolvedEntries, ofNode, own]
  -- The key says the same, so both are read in the same way, and only the values differ.
  cases kind : kindOf? (keyText key) with
  | none => simp
  | some kind' =>
    rw [kind] at inner
    cases kind' with
    | const =>
      -- A number or a name is read through aliases, and nothing in it is taken as it stands.
      simp only [numberOf?_resolved, direct_nil, and_true]
      cases (numberOf? body : Option α) <;> simp
    | var =>
      simp only [nameOf?_resolved, direct_nil, and_true]
      cases nameOf? body <;> simp
    | add | mul =>
      -- The value itself is taken for operands, whatever it is.
      simp only [spoken_cons] at inner
      simp only [map_eq_ok, inOperands _ _ inner.2, direct_cons]
      grind
    | exp =>
      simp only [map_eq_ok, inExponent _ inner]
      grind

mutual

/-- An expression is read as if its aliases were written out, unless one is taken as it stands. -/
theorem ofNode_iff_resolved (node : Node) (spoken : Spoken (unfollowed node)) (e : Expr α) :
    ofNode node = .ok e ↔ ofNode node.resolved = .ok e ∧ Direct (unfollowed node) := by
  match node with
  | .scalar _ _ | .loop _ => simp [Node.resolved, unfollowed]
  | .list _ _ _ => simp [Node.resolved, unfollowed, ofNode]
  | .alias _ _ target =>
    -- The target must not be an alias, and is read like any other node.
    simp only [unfollowed, spoken_cons, direct_cons] at spoken ⊢
    rw [ofNode_alias, ofNode_iff_resolved target spoken.2, Node.resolved]
    grind
  | .mapping _ _ [] => simp [Node.resolved, Node.resolvedEntries, unfollowed]
  | .mapping _ _ [(key, body)] =>
    exact entry_iff_resolved spoken
      (fun kind es spoken => ofOperands_iff_resolved kind body spoken es)
      (fun e spoken => ofNode_iff_resolved body spoken e) e
  | .mapping _ _ (_ :: _ :: _) => simp [Node.resolved, Node.resolvedEntries, unfollowed, ofNode]

/-- Operands are read as if aliases were written out, unless one stands for them or among them. -/
theorem ofOperands_iff_resolved (kind : Kind) (body : Node)
    (spoken : Spoken (unfollowedOperands body)) (es : List (Expr α)) :
    ofOperands kind body = .ok es ↔ ofOperands kind body.resolved = .ok es ∧
      body.isAlias = false ∧ Direct (unfollowedOperands body) := by
  match body with
  | .scalar _ _ | .mapping _ _ _ | .loop _ => simp [Node.resolved, ofOperands]
  -- An alias has no operands, though what it stands for may have some.
  | .alias _ _ _ => simp [ofOperands, Node.isAlias]
  | .list _ _ [] => simp [Node.resolved, Node.resolvedAll, ofOperands]
  | .list _ _ (item :: rest) =>
    rw [Node.resolved, ofOperands_list (by simp), ofOperands_list (by simp [Node.resolvedAll])]
    simpa [Node.isAlias, unfollowedOperands] using ofNodes_iff_resolved (item :: rest) spoken es

/-- Several expressions are read as if their aliases were written out. -/
theorem ofNodes_iff_resolved (nodes : List Node) (spoken : Spoken (unfollowedAll nodes))
    (es : List (Expr α)) :
    ofNodes nodes = .ok es ↔
      ofNodes (Node.resolvedAll nodes) = .ok es ∧ Direct (unfollowedAll nodes) := by
  match nodes with
  | [] => simp [Node.resolvedAll, unfollowedAll]
  | node :: rest =>
    simp only [unfollowedAll, spoken_append, direct_append] at spoken ⊢
    -- The first expression and the others are read apart from each other.
    simp only [Node.resolvedAll, ofNodes_eq_ok, List.forall₂_cons_left_iff]
    simp only [← ofNodes_eq_ok, ofNode_iff_resolved node spoken.1,
      ofNodes_iff_resolved rest spoken.2]
    grind

end

/--
An expression is read through its aliases, but not through those of operand lists.

Written out, every alias is replaced by what it stands for. Where keys say what they stand for, an
expression is read from a node if and only if the same one is read from the node written out, no
alias stands for a list of operands, and none stands for another alias.
-/
theorem read_iff_read_resolved (g : Node)
    (spoken : ∀ key, (.key, key) ∈ unfollowed g → keyText key.resolved = keyText key)
    (e : Expr α) :
    ofNode g = .ok e ↔ ofNode g.resolved = .ok e ∧
      (∀ body, (.operands, body) ∈ unfollowed g → body.isAlias = false) ∧
      ∀ target, (.target, target) ∈ unfollowed g → target.isAlias = false := by
  -- The two conditions say that every alias is one that is followed.
  rw [ofNode_iff_resolved g spoken, direct_iff]

end Scalars

/-- A mapping with one entry, which says a kind. -/
def entryOf (kind : Kind) (body : Node) : Node :=
  .mapping 1 none [(.scalar 1 ⟨none, false, kind.name⟩, body)]

/-- An exponential of a variable, and its uses as an item, as an exponent and for a name. -/
def sharedGrowth : Node :=
  let name : Node := .scalar 1 ⟨none, false, "x"⟩
  let growth : Node := entryOf .exp (entryOf .var name)
  .alias 2 "g" (entryOf .add (.list 1 none
    [growth, .alias 1 "a" growth, entryOf .exp (.alias 1 "a" growth),
      entryOf .var (.alias 1 "n" name)]))

/-- Aliases of expressions and of names are read as what they stand for. -/
theorem read_iff_read_resolved_growth :
    ofNode sharedGrowth = .ok (.add [.exp (.var "x"), .exp (.var "x"), .exp (.exp (.var "x")),
      .var "x"] : Expr Float) := by
  -- All keys are scalars, which say the same when they are written out.
  have spoken : Spoken (unfollowed sharedGrowth) := by
    simp [sharedGrowth, entryOf, unfollowed, unfollowedOperands, unfollowedAll, keyText,
      kindOf?, Kind.name, Node.resolved]
  have direct : Direct (unfollowed sharedGrowth) := by
    simp [sharedGrowth, entryOf, unfollowed, unfollowedOperands, unfollowedAll, keyText,
      kindOf?, Kind.name, Node.isAlias]
  apply (read_iff_read_resolved sharedGrowth spoken _).mpr
  exact ⟨rfl, direct_iff.mp direct⟩

/-- Two sums of the same operands, of which the second one has them by an alias. -/
def sharedOperands : Node :=
  let operands : Node := .list 1 none [entryOf .var (.scalar 1 ⟨none, false, "x"⟩)]
  entryOf .mul (.list 1 none [entryOf .add operands, entryOf .add (.alias 1 "t" operands)])

/-- An alias of a list of operands is refused, though the list itself is not. -/
theorem shared_operands_refused :
    (ofNode sharedOperands : Except ExpressionError (Expr Float)) = .error (.notList 1 .add) ∧
    ofNode sharedOperands.resolved = .ok (.mul [.add [.var "x"], .add [.var "x"]] : Expr Float) :=
  -- Both are read by calculation.
  ⟨rfl, rfl⟩

end Expr

end Tangent
