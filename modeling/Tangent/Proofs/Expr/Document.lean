import Tangent.Expr.Document
import Tangent.Proofs.Expr.Places

/-!
Expressions in documents.

What is read from a node is read one level at a time: a number, or a mapping whose only key says
what its value is. A tree that a document can hold is written as data that reads back as the tree,
and nothing else can be read.
-/

namespace Tangent

open Yaml (Node Data Scalar)

variable {α : Type} [Numeral α]

/--
A node that says what data says.

It may stand on any line and bear any tag or quotes, as long as the number or the text of a scalar
is not lost.
-/
inductive Yaml.Node.Says [ScalarText] : Node → Data α → Prop where
  | number {line : Nat} {s : Scalar} {value : α} (read : Numeral.ofScalar? s = some value) :
    Says (.scalar line s) (.number value)
  | text {line : Nat} {s : Scalar} {value : String} (read : ScalarText.text? s = some value) :
    Says (.scalar line s) (.text value)
  | list {line : Nat} {tag : Option String} {nodes : List Node} {items : List (Data α)}
    (each : List.Forall₂ Says nodes items) : Says (.list line tag nodes) (.list items)
  | entry {line keyLine : Nat} {tag : Option String} {s : Scalar} {key : String} {node : Node}
    {value : Data α} (named : s.text = key) (said : Says node value) :
    Says (.mapping line tag [(.scalar keyLine s, node)]) (.entry key value)

namespace Expr

/-- A tree that a document can hold: it can be evaluated, and every variable of it has a name. -/
structure Storable (e : Expr α) : Prop where
  valid : e.validate = .ok ()
  named : "" ∉ e.mentioned

omit [Numeral α] in
/-- A tree can be held when its root and its operands can. -/
theorem storable_iff {e : Expr α} :
    e.Storable ↔ e.flaw? = none ∧ e ≠ .var "" ∧ ∀ x ∈ e.operands, x.Storable := by
  -- Nothing is wrong in the tree, and no variable of it lacks a name.
  constructor
  · intro ⟨valid, named⟩
    obtain ⟨own, each⟩ := validate_iff_operands.mp valid
    rw [mem_mentioned_cases] at named
    push Not at named
    exact ⟨own, named.1, fun x listed => ⟨each x listed, named.2 x listed⟩⟩
  · intro ⟨own, name, each⟩
    refine ⟨validate_iff_operands.mpr ⟨own, fun x listed => (each x listed).valid⟩, ?_⟩
    rw [mem_mentioned_cases]
    push Not
    exact ⟨name, fun x listed => (each x listed).named⟩

/-! Reading one level -/

/-- A kind is said by its name. -/
theorem kindOf?_name (kind : Kind) : kindOf? kind.name = some kind := by
  -- The names of the five kinds differ.
  cases kind <;> decide

section Scalars

variable [ScalarText]

/-- What a node that is no alias says, down to the nodes it is made of. -/
inductive Told : Node → Expr α → Prop where
  | number {line : Nat} {s : Scalar} {value : α} (read : Numeral.ofScalar? s = some value) :
    Told (.scalar line s) (.const value)
  | const {line : Nat} {tag : Option String} {key body : Node} {value : α}
    (kind : kindOf? (keyText key) = some .const) (read : numberOf? body = some value) :
    Told (.mapping line tag [(key, body)]) (.const value)
  | var {line : Nat} {tag : Option String} {key body : Node} {name : String}
    (kind : kindOf? (keyText key) = some .var) (read : nameOf? body = some name) :
    Told (.mapping line tag [(key, body)]) (.var name)
  | add {line listLine : Nat} {tag listTag : Option String} {key : Node} {items : List Node}
    {operands : List (Expr α)} (kind : kindOf? (keyText key) = some .add) (some : items ≠ [])
    (read : ofNodes items = .ok operands) :
    Told (.mapping line tag [(key, .list listLine listTag items)]) (.add operands)
  | mul {line listLine : Nat} {tag listTag : Option String} {key : Node} {items : List Node}
    {operands : List (Expr α)} (kind : kindOf? (keyText key) = some .mul) (some : items ≠ [])
    (read : ofNodes items = .ok operands) :
    Told (.mapping line tag [(key, .list listLine listTag items)]) (.mul operands)
  | exp {line : Nat} {tag : Option String} {key body : Node} {exponent : Expr α}
    (kind : kindOf? (keyText key) = some .exp) (read : ofNode body = .ok exponent) :
    Told (.mapping line tag [(key, body)]) (.exp exponent)

/-- The operands of a list that is not empty are its items. -/
theorem ofOperands_list {kind : Kind} {line : Nat} {tag : Option String} {items : List Node}
    (some : items ≠ []) :
    (ofOperands kind (.list line tag items) : Except ExpressionError (List (Expr α))) =
      ofNodes items := by
  -- The empty list is refused, and every other one is read by its items.
  cases items with
  | nil => simp at some
  | cons item rest => simp only [ofOperands]

/-- Operands are read from a list that is not empty, and from nothing else. -/
theorem list_of_ofOperands {kind : Kind} {body : Node} {operands : List (Expr α)}
    (read : ofOperands kind body = .ok operands) :
    ∃ line tag items, body = .list line tag items ∧ items ≠ [] ∧ ofNodes items = .ok operands := by
  -- Scalars, mappings and aliases are refused, and so is the empty list.
  cases body with
  | list line tag items =>
    cases items with
    | nil => simp [ofOperands] at read
    | cons item rest =>
      rw [ofOperands_list (by simp)] at read
      exact ⟨line, tag, item :: rest, rfl, by simp, read⟩
  | _ => simp [ofOperands] at read

/-- An alias is read as what it stands for, which is no alias. -/
theorem ofNode_alias {line : Nat} {name : String} {target : Node} {e : Expr α} :
    ofNode (.alias line name target) = .ok e ↔ target.isAlias = false ∧ ofNode target = .ok e := by
  -- An alias of an alias is refused before it is read.
  rw [ofNode]
  cases target.isAlias <;> simp

/-- What is read from a mapping with one entry is what its key says of its value. -/
theorem told_of_entry {line : Nat} {tag : Option String} {key body : Node} {e : Expr α}
    (read : ofNode (.mapping line tag [(key, body)]) = .ok e) :
    Told (.mapping line tag [(key, body)]) e := by
  rw [ofNode] at read
  -- The key says what the value has to be, and every other key is refused.
  split at read
  case h_1 kind =>
    split at read
    · cases read
      exact .const kind ‹_›
    · cases read
  case h_2 kind =>
    split at read
    · cases read
      exact .var kind ‹_›
    · cases read
  case h_3 kind =>
    obtain ⟨operands, inner, rfl⟩ := ok_of_map read
    obtain ⟨_, _, items, rfl, some, inner⟩ := list_of_ofOperands inner
    exact .add kind some inner
  case h_4 kind =>
    obtain ⟨operands, inner, rfl⟩ := ok_of_map read
    obtain ⟨_, _, items, rfl, some, inner⟩ := list_of_ofOperands inner
    exact .mul kind some inner
  case h_5 kind =>
    obtain ⟨exponent, inner, rfl⟩ := ok_of_map read
    exact .exp kind inner
  case h_6 => cases read

/-- What is read from a node that is no alias is what it says. -/
theorem ofNode_eq_ok {node : Node} {e : Expr α} (direct : node.isAlias = false) :
    ofNode node = .ok e ↔ Told node e := by
  constructor
  · intro read
    cases node with
    | scalar line s =>
      rw [ofNode] at read
      split at read
      · cases read
        exact .number ‹_›
      · cases read
    | list line tag items => simp [ofNode] at read
    | mapping line tag entries =>
      -- Only a mapping with one entry says anything.
      match entries with
      | [] => simp [ofNode] at read
      | [(key, body)] => exact told_of_entry read
      | _ :: _ :: _ => simp [ofNode] at read
    | _ => cases direct
  · intro told
    cases told with
    | number read => rw [ofNode, read]
    | const kind read => simp only [ofNode, kind, read]
    | var kind read => simp only [ofNode, kind, read]
    | add kind some read => simp only [ofNode, kind, ofOperands_list some, read, Except.map]
    | mul kind some read => simp only [ofNode, kind, ofOperands_list some, read, Except.map]
    | exp kind read => simp only [ofNode, kind, read, Except.map]

/-- What is read is said by some node that is no alias. -/
theorem exists_told {node : Node} {e : Expr α} (read : ofNode node = .ok e) :
    ∃ inner, Told inner e := by
  -- An alias is told by its target, and every other node by itself.
  match node with
  | .alias line name target =>
    obtain ⟨direct, read⟩ := ofNode_alias.mp read
    exact ⟨target, (ofNode_eq_ok direct).mp read⟩
  | .scalar line s => exact ⟨_, (ofNode_eq_ok rfl).mp read⟩
  | .list line tag items => exact ⟨_, (ofNode_eq_ok rfl).mp read⟩
  | .mapping line tag entries => exact ⟨_, (ofNode_eq_ok rfl).mp read⟩
  | .loop content => simp [ofNode] at read

/-- Several expressions are read one by one. -/
theorem ofNodes_eq_ok {nodes : List Node} {es : List (Expr α)} :
    ofNodes nodes = .ok es ↔ List.Forall₂ (fun node e => ofNode node = .ok e) nodes es := by
  -- Reading stops at the first item that is refused.
  constructor
  · intro read
    induction nodes generalizing es with
    | nil =>
      cases read
      exact .nil
    | cons node rest ih =>
      rw [ofNodes] at read
      obtain ⟨first, own, read⟩ := ok_of_bind read
      obtain ⟨others, more, read⟩ := ok_of_bind read
      cases read
      exact .cons own (ih more)
  · intro each
    induction each with
    | nil => rfl
    | cons own _ ih => rw [ofNodes, own, ok_bind, ih, ok_bind]; rfl

/-- A name that is read is not empty. -/
theorem nameOf?_ne_empty {node : Node} {name : String} (read : nameOf? node = some name) :
    name ≠ "" := by
  fun_induction nameOf? node with
  | case1 line s =>
    -- A text that is empty is no name.
    obtain ⟨text, _, read⟩ := Option.bind_eq_some_iff.mp read
    split at read
    · cases read
    · rename_i filled
      rw [← Option.some.inj read]
      simpa using filled
  | case2 line other target ih => exact ih read
  | case3 => cases read

/-- Operands that are read can be held if each of them can that is read from a node. -/
theorem storable_of_ofNodes {nodes : List Node} {es : List (Expr α)} (some : nodes ≠ [])
    (read : ofNodes nodes = .ok es)
    (storable : ∀ e ∈ es, ∀ node, ofNode node = .ok e → e.Storable) :
    es ≠ [] ∧ ∀ e ∈ es, e.Storable := by
  have each := ofNodes_eq_ok.mp read
  constructor
  · intro none
    subst none
    cases each
    exact some rfl
  · intro e listed
    -- The operand at a place is read from the node at that place.
    obtain ⟨i, below, rfl⟩ := List.getElem_of_mem listed
    exact storable _ listed _ (each.get (each.length_eq ▸ below) below)

/-- What is read is a tree that a document can hold. -/
theorem storable_of_ofNode (e : Expr α) : ∀ node, ofNode node = .ok e → e.Storable := by
  induction e using operands_induction with
  | step e ih =>
    intro node read
    -- An alias is read as its target, so the tree is that of a node that is no alias.
    obtain ⟨inner, told⟩ := exists_told read
    rw [storable_iff]
    clear read
    cases told with
    | number | const => exact ⟨rfl, by simp, by simp [operands]⟩
    | var _ read =>
      have named := nameOf?_ne_empty read
      exact ⟨rfl, by simpa using named, by simp [operands]⟩
    | add _ some read =>
      obtain ⟨filled, each⟩ := storable_of_ofNodes some read ih
      exact ⟨by simp [flaw?, filled], by simp, each⟩
    | mul _ some read =>
      obtain ⟨filled, each⟩ := storable_of_ofNodes some read ih
      exact ⟨by simp [flaw?, filled], by simp, each⟩
    | exp _ read =>
      refine ⟨rfl, by simp, ?_⟩
      intro x listed
      obtain rfl := List.mem_singleton.mp listed
      exact ih _ listed _ read

/-! Writing -/

/-- A tree that is written as data, and read from any node that says the data. -/
def ReadsBack (e : Expr α) : Prop :=
  ∃ data, e.toData = .ok data ∧ ∀ node : Node, node.Says data → ofNode node = .ok e

/-- Operands that read back one by one do so as a list. -/
theorem exists_toDataAll {operands : List (Expr α)} (each : ∀ e ∈ operands, e.ReadsBack) :
    ∃ items, toDataAll operands = .ok items ∧
      ∀ nodes, List.Forall₂ Node.Says nodes items → ofNodes nodes = .ok operands := by
  -- Items and nodes are gone through together.
  induction operands with
  | nil =>
    refine ⟨[], rfl, ?_⟩
    intro nodes said
    cases said
    rfl
  | cons e rest ih =>
    obtain ⟨data, written, own⟩ := each e (by simp)
    obtain ⟨items, more, others⟩ := ih (fun x listed => each x (by simp [listed]))
    refine ⟨data :: items, by rw [toDataAll, written, ok_bind, more, ok_bind]; rfl, ?_⟩
    intro nodes said
    cases said with
    | cons first rest => rw [ofNodes, own _ first, ok_bind, others _ rest, ok_bind]; rfl

omit [ScalarText] in
/-- A scalar that is named as a kind says it. -/
theorem kindOf?_of_named (kind : Kind) {line : Nat} {s : Scalar} (named : s.text = kind.name) :
    kindOf? (keyText (.scalar line s)) = some kind := by
  -- The text of a scalar is its key.
  rw [keyText, named, kindOf?_name]

/-- A sum or a product reads back if its operands do. -/
theorem readsBack_of_operands (kind : Kind) {e : Expr α} {operands : List (Expr α)}
    (filled : operands ≠ []) (each : ∀ x ∈ operands, x.ReadsBack)
    (written : e.toData = do return .entry kind.name (.list (← toDataAll operands)))
    (told : ∀ {line listLine tag listTag key} {items : List Node},
      kindOf? (keyText key) = some kind → items ≠ [] → ofNodes items = .ok operands →
      Told (.mapping line tag [(key, .list listLine listTag items)]) e) : e.ReadsBack := by
  obtain ⟨items, listed, back⟩ := exists_toDataAll each
  refine ⟨.entry kind.name (.list items), by rw [written, listed]; rfl, ?_⟩
  -- A node that says an entry is a mapping with one key, which is named as the kind.
  intro node said
  cases said with
  | entry named said =>
    cases said with
    | list said =>
      have read := back _ said
      apply (ofNode_eq_ok rfl).mpr
      refine told (kindOf?_of_named kind named) ?_ read
      -- Without nodes no operands would be read.
      intro none
      subst none
      exact filled (Except.ok.inj read).symm

/-- A tree that a document can hold reads back. -/
theorem readsBack_of_storable (e : Expr α) : e.Storable → e.ReadsBack := by
  induction e using induction with
  | const value =>
    intro _
    refine ⟨.entry "const" (.number value), rfl, ?_⟩
    intro node said
    cases said with
    | entry named said =>
      cases said with
      | number read =>
        apply (ofNode_eq_ok rfl).mpr
        exact .const (kindOf?_of_named .const named) read
  | var name =>
    intro storable
    refine ⟨.entry "var" (.text name), rfl, ?_⟩
    intro node said
    -- A name of a tree that can be held is not empty, so it is taken for one.
    have filled : name ≠ "" := by simpa using (storable_iff.mp storable).2.1
    cases said with
    | entry named said =>
      cases said with
      | text read =>
        apply (ofNode_eq_ok rfl).mpr
        apply Told.var (kindOf?_of_named .var named)
        simp [nameOf?, read, filled]
  | add operands ih =>
    intro storable
    obtain ⟨own, _, each⟩ := storable_iff.mp storable
    have back : ∀ x ∈ operands, x.ReadsBack := fun x listed => ih x listed (each x listed)
    apply readsBack_of_operands .add ?_ back (by rw [toData]; rfl) .add
    -- Without operands it would have a flaw.
    intro none
    simp [none, flaw?] at own
  | mul operands ih =>
    intro storable
    obtain ⟨own, _, each⟩ := storable_iff.mp storable
    have back : ∀ x ∈ operands, x.ReadsBack := fun x listed => ih x listed (each x listed)
    apply readsBack_of_operands .mul ?_ back (by rw [toData]; rfl) .mul
    -- Without operands it would have a flaw.
    intro none
    simp [none, flaw?] at own
  | exp exponent ih =>
    intro storable
    have inner := (storable_iff.mp storable).2.2 exponent (by simp [operands])
    obtain ⟨data, written, back⟩ := ih inner
    refine ⟨.entry "exp" data, by rw [toData, written]; rfl, ?_⟩
    intro node said
    cases said with
    | entry named said =>
      apply (ofNode_eq_ok rfl).mpr
      exact .exp (kindOf?_of_named .exp named) (back _ said)
  -- An empty place is a flaw.
  | hole => intro storable; cases (storable_iff.mp storable).1
  | unset kind => intro storable; cases (storable_iff.mp storable).1

/--
Expressions survive a document, and documents hold nothing else.

A tree that can be evaluated and names all of its variables is written as data, and every node that
says the data is read as the very tree. Whatever is read from a node is such a tree.
-/
theorem document_holds_tree :
    (∀ e : Expr α, e.validate = .ok () → "" ∉ e.mentioned →
      ∃ data, e.toData? = .ok (some data) ∧ ∀ node : Node, node.Says data → ofNode node = .ok e) ∧
    ∀ (node : Node) (e : Expr α), ofNode node = .ok e → e.validate = .ok () ∧ "" ∉ e.mentioned := by
  constructor
  · intro e valid named
    obtain ⟨data, written, back⟩ := readsBack_of_storable e ⟨valid, named⟩
    refine ⟨data, ?_, back⟩
    -- Only an empty tree is left out, and it is not accepted.
    cases e with
    | hole => cases valid
    | _ => simp [toData?, written, Except.map]
  · intro node e read
    have storable := storable_of_ofNode e node read
    exact ⟨storable.valid, storable.named⟩

end Scalars

/-- A sum with a number and a variable whose name looks like a number. -/
def growthBy12 : Expr Float := .exp (.add [.const (Binary64.nearest false 2 1), .var "12"])

/-- The name has to be quoted, and the number may be written in another way. -/
theorem document_holds_growth :
    growthBy12.toData? = .ok (some (.entry "exp" (.entry "add" (.list
      [.entry "const" (.number (Binary64.nearest false 2 1)), .entry "var" (.text "12")])))) ∧
    ofNode (.mapping 1 none [(.scalar 1 ⟨none, false, "exp"⟩, .mapping 2 none
      [(.scalar 2 ⟨none, false, "add"⟩, .list 2 none
        [.mapping 2 none [(.scalar 2 ⟨none, false, "const"⟩, .scalar 2 ⟨none, false, "0x2"⟩)],
          .mapping 3 none [(.scalar 3 ⟨none, false, "var"⟩, .scalar 3 ⟨none, true, "12"⟩)]])])]) =
      .ok growthBy12 := by
  -- The tree has one variable, which has a name.
  have named : "" ∉ growthBy12.mentioned := by simp [growthBy12, mentioned, mentionedIn]
  obtain ⟨data, written, back⟩ := document_holds_tree.1 growthBy12 rfl named
  cases written
  refine ⟨rfl, back _ (.entry rfl (.entry rfl (.list (.cons ?_ (.cons ?_ .nil)))))⟩
  · exact .entry rfl (.number rfl)
  · exact .entry rfl (.text rfl)

end Expr

end Tangent
