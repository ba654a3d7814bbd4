/-
  Places in a document, and the nodes of a unit.

  A place is the way from a document to a part of it, over the names of fields and the numbers of items.
  Following it (`spot?`) one meets the nodes that enclose the part, and with them the line that it
  inherits: the part of a node inherits the line of the node.  The document itself is no node and hands
  down nothing.

  Which of the nodes hand down their line is left open.  Under the reading `everyNode` all do, so a line
  comes from the nearest node around.  Under `skippingDeclarators` a declarator does not, so that its
  initializer inherits past it, from the variable statement.

  The tree of a unit has the shape of the document: `CompilationUnit.nodes` lists its nodes with the lines
  that they are stamped with, each under the place that it has in the document.
-/
import FrameScript.Document.Load
import Mathlib.Data.List.Induction

namespace FrameScript

namespace Document

open Json (Value Fields)

/-! ## Places -/

/-- From a value to a part of it. -/
inductive Step where
  | field (name : String)
  | item (index : Nat)
deriving Repr, DecidableEq

/-- The way from a document to a part of it. -/
abbrev Place := List Step

/-- A part of a document with what comes to it from around. -/
structure Spot where
  value : Value
  /-- The line that a node here inherits. -/
  inherited : Nat
  /-- A node here hands its line down to its parts. -/
  handsDown : Bool

namespace Spot

/-- The node that stands here, if one does. -/
def node? (s : Spot) : Option Fields :=
  match s.value with
  | .object node => some node
  | _ => none

/-- The line of the node that stands here. -/
def line? (s : Spot) : Option Nat := s.node?.map (nodeLine · s.inherited)

/-- The line that the parts of a node here inherit. -/
def passes (s : Spot) (node : Fields) : Nat :=
  if s.handsDown then nodeLine node s.inherited else s.inherited

/-- The next spot on the way.  The reading says of a field whether the nodes in it hand down their
lines. -/
def step (reading : String → Bool) (s : Spot) : Step → Option Spot
  | .field name =>
    match s.value with
    | .object node => (Fields.get? node name).map fun value => ⟨value, s.passes node, reading name⟩
    | _ => none
  | .item i =>
    match s.value with
    | .array values => values[i]?.map fun value => { s with value }
    | _ => none

end Spot

/-- All nodes hand down their lines. -/
def everyNode : String → Bool := fun _ => true

/-- All nodes but declarators hand down their lines. -/
def skippingDeclarators : String → Bool := fun name => name ≠ "declarations"

/-- What stands at a place of a document. -/
def spot? (reading : String → Bool) (document : Value) (place : Place) : Option Spot :=
  place.foldlM (Spot.step reading) ⟨document, 0, false⟩

/-- The node at a place. -/
def nodeAt? (reading : String → Bool) (document : Value) (place : Place) : Option Fields :=
  (spot? reading document place).bind (·.node?)

/-- The line of the node at a place: its own if it has a valid one, and otherwise the inherited one. -/
def lineAt? (reading : String → Bool) (document : Value) (place : Place) : Option Nat :=
  (spot? reading document place).bind (·.line?)

section Steps

variable {reading : String → Bool} {document : Value} {here : Place} {node : Fields}
  {inherited : Nat} {handsDown : Bool}

theorem spot?_nil : spot? reading document [] = some ⟨document, 0, false⟩ := rfl

theorem spot?_snoc (step : Step) :
    spot? reading document (here ++ [step]) = (spot? reading document here).bind (·.step reading step) := by
  rw [spot?, List.foldlM_append]
  refine congrArg _ (funext fun s => ?_)
  show (s.step reading step).bind some = _
  exact Option.bind_fun_some _

theorem spot?_field {name : String} {value : Value}
    (h : spot? reading document here = some ⟨.object node, inherited, handsDown⟩)
    (hvalue : node.get? name = some value) :
    spot? reading document (here ++ [.field name]) =
      some ⟨value, if handsDown then nodeLine node inherited else inherited, reading name⟩ := by
  rw [spot?_snoc, h]
  show (node.get? name).map _ = _
  rw [hvalue]
  rfl

theorem spot?_item {values : List Value} {i : Nat} {value : Value}
    (h : spot? reading document here = some ⟨.array values, inherited, handsDown⟩)
    (hvalue : values[i]? = some value) :
    spot? reading document (here ++ [.item i]) = some ⟨value, inherited, handsDown⟩ := by
  rw [spot?_snoc, h]
  show values[i]?.map _ = _
  rw [hvalue]
  rfl

/-- The items of an array; a field that has none is empty. -/
def itemsOf (node : Fields) (field : String) : List Value :=
  match node.get? field with
  | some (.array values) => values
  | _ => []

theorem spot?_itemsOf {name : String} {i : Nat} {value : Value}
    (h : spot? reading document here = some ⟨.object node, inherited, handsDown⟩)
    (hvalue : (itemsOf node name)[i]? = some value) :
    spot? reading document (here ++ [.field name] ++ [.item i]) =
      some ⟨value, if handsDown then nodeLine node inherited else inherited, reading name⟩ := by
  unfold itemsOf at hvalue
  split at hvalue
  · next values hvalues => exact spot?_item (spot?_field h hvalues) hvalue
  · cases hvalue

theorem nodeAt?_eq (h : spot? reading document here = some ⟨.object node, inherited, handsDown⟩) :
    nodeAt? reading document here = some node := by
  rw [nodeAt?, h]
  rfl

theorem lineAt?_eq (h : spot? reading document here = some ⟨.object node, inherited, handsDown⟩) :
    lineAt? reading document here = some (nodeLine node inherited) := by
  rw [lineAt?, h]
  rfl

end Steps

/-- A declarator hands down its line or not; where none is on the way this makes no difference. -/
theorem spot?_everyNode {document : Value} {place : Place} (h : .field "declarations" ∉ place) :
    spot? everyNode document place = spot? skippingDeclarators document place := by
  induction place using List.reverseRecOn with
  | nil => rfl
  | append_singleton here step ih =>
    rw [List.mem_append, List.mem_singleton, not_or] at h
    rw [spot?_snoc, spot?_snoc, ih h.1]
    cases step with
    | item i => rfl
    | field name =>
      have hname : name ≠ "declarations" := fun heq => h.2 (heq ▸ rfl)
      have hreading : skippingDeclarators name = true := decide_eq_true hname
      cases spot? skippingDeclarators document here with
      | none => rfl
      | some s =>
        show s.step everyNode (.field name) = s.step skippingDeclarators (.field name)
        simp only [Spot.step, hreading, everyNode]

/-- The place lies inside a declarator: a field is entered behind `declarations`. -/
def InsideDeclarator (place : Place) : Prop :=
  ∃ before after name, place = before ++ .field "declarations" :: after ∧ .field name ∈ after

/-- What has reached a spot. -/
def Spot.forgetful (s : Spot) : Spot := { s with handsDown := false }

/-- Only what is entered from a declarator can tell the two readings apart. -/
theorem spot?_forgetful (document : Value) {place : Place} (h : ¬ InsideDeclarator place) :
    (spot? everyNode document place).map Spot.forgetful =
      (spot? skippingDeclarators document place).map Spot.forgetful := by
  induction place using List.reverseRecOn with
  | nil => rfl
  | append_singleton here step ih =>
    rw [spot?_snoc, spot?_snoc, Option.map_bind, Option.map_bind]
    cases step with
    | item i =>
      have hitem : ∀ reading s, (Spot.step reading s (.item i)).map Spot.forgetful =
          s.forgetful.step everyNode (.item i) := by
        rintro reading ⟨value, inherited, handsDown⟩
        cases value with
        | array values => exact Option.map_map ..
        | _ => rfl
      have hhere := ih fun ⟨before, after, name, heq, hname⟩ => h ⟨before, after ++ [.item i], name,
        by rw [heq, List.append_assoc, List.cons_append], List.mem_append_left _ hname⟩
      have hbind := congrArg (fun s => s.bind (·.step everyNode (.item i))) hhere
      simpa only [Option.bind_map, Function.comp_def, hitem] using hbind
    | field name =>
      -- behind `declarations` no field may be entered, so this is the first time that it could come up
      have hnone : .field "declarations" ∉ here := fun hmem => by
        obtain ⟨before, after, rfl⟩ := List.append_of_mem hmem
        exact h ⟨before, after ++ [.field name], name, by rw [List.append_assoc, List.cons_append],
          List.mem_append_right _ (List.mem_singleton_self _)⟩
      rw [spot?_everyNode hnone]
      refine congrArg _ (funext fun ⟨value, inherited, handsDown⟩ => ?_)
      cases value with
      | object node =>
        simp only [Function.comp_apply, Spot.step, Option.map_map]
        rfl
      | _ => rfl

/-- A place that is not inside a declarator has one line. -/
theorem lineAt?_everyNode {document : Value} {place : Place} (h : ¬ InsideDeclarator place) :
    lineAt? everyNode document place = lineAt? skippingDeclarators document place := by
  have hlines := congrArg (fun s => s.bind Spot.line?) (spot?_forgetful document h)
  rw [Option.bind_map, Option.bind_map] at hlines
  exact hlines

end Document

/-! ## The nodes of a unit -/

namespace Source

open Document (Place)

/-- The nodes of items, each of which has its number for its place. -/
def itemNodes {α : Type} (nodes : Place → α → List (Place × Nat)) (here : Place) (items : List α) :
    List (Place × Nat) :=
  items.zipIdx.flatMap fun (item, i) => nodes (here ++ [.item i]) item

mutual

/-- The nodes of an expression that stands at a place, with their lines. -/
def Expr.nodes (here : Place) : Expr → List (Place × Nat)
  | .binary m left _ right => (here, m.line) ::
      (left.nodes (here ++ [.field "left"]) ++ right.nodes (here ++ [.field "right"]))
  | .unary m _ _ operand => (here, m.line) :: operand.nodes (here ++ [.field "operand"])
  | .call m callee arguments | .construct m callee arguments => (here, m.line) ::
      (callee.nodes (here ++ [.field "expression"]) ++
        exprsNodes (here ++ [.field "arguments"]) 0 arguments)
  | .member m inner _ | .await m inner | .wrapped m inner =>
      (here, m.line) :: inner.nodes (here ++ [.field "expression"])
  | .number m _ | .boolean m _ | .null m | .identifier m _ | .this m | .super m
  | .unsupported m _ => [(here, m.line)]

/-- The nodes of expressions in a row, of which the first has the given number. -/
def exprsNodes (here : Place) (first : Nat) : List Expr → List (Place × Nat)
  | [] => []
  | e :: rest => e.nodes (here ++ [.item first]) ++ exprsNodes here (first + 1) rest

end

def optionalNodes (here : Place) : Option Expr → List (Place × Nat)
  | some e => e.nodes here
  | none => []

def Declarator.nodes (here : Place) (d : Declarator) : List (Place × Nat) :=
  (here, d.line) :: optionalNodes (here ++ [.field "initializer"]) d.initializer

def Param.nodes (here : Place) (p : Param) : List (Place × Nat) := [(here, p.line)]

mutual

/-- The nodes of a statement.  A declaration and its statement are one node. -/
def Stmt.nodes (here : Place) : Stmt → List (Place × Nat)
  | .block line body => (here, line) :: stmtsNodes (here ++ [.field "statements"]) 0 body
  | .bindings line ds => (here, line) ::
      itemNodes Declarator.nodes (here ++ [.field "declarations"]) ds
  | .expression line e => (here, line) :: e.nodes (here ++ [.field "expression"])
  | .returning line value => (here, line) :: optionalNodes (here ++ [.field "expression"]) value
  | .function f => f.nodes here
  | .classDef c => c.nodes here
  | .imports line _ | .typeOnly line | .empty line | .other line _ => [(here, line)]

def stmtsNodes (here : Place) (first : Nat) : List Stmt → List (Place × Nat)
  | [] => []
  | st :: rest => st.nodes (here ++ [.item first]) ++ stmtsNodes here (first + 1) rest

def FunctionDecl.nodes (here : Place) : FunctionDecl → List (Place × Nat)
  | ⟨_, _, params, body, _, line⟩ => (here, line) ::
      (itemNodes Param.nodes (here ++ [.field "parameters"]) params ++
        bodyNodes (here ++ [.field "body"]) body)

def bodyNodes (here : Place) : Option (List Stmt) → List (Place × Nat)
  | some body => stmtsNodes here 0 body
  | none => []

def ClassDecl.nodes (here : Place) : ClassDecl → List (Place × Nat)
  | ⟨_, _, _, _, _, members, line⟩ =>
      (here, line) :: membersNodes (here ++ [.field "members"]) 0 members

def Member.nodes (here : Place) : Member → List (Place × Nat)
  | .method f _ => f.nodes here
  | .constructor f => f.nodes here
  | .property p => (here, p.line) :: optionalNodes (here ++ [.field "initializer"]) p.initializer
  | .other line _ => [(here, line)]

def membersNodes (here : Place) (first : Nat) : List Member → List (Place × Nat)
  | [] => []
  | m :: rest => m.nodes (here ++ [.item first]) ++ membersNodes here (first + 1) rest

end

/-- The statements, declarators, parameters, declarations, members and expressions of a unit: the place
of each in the document, and its line. -/
def CompilationUnit.nodes (u : CompilationUnit) : List (Place × Nat) :=
  stmtsNodes [.field "statements"] 0 u.statements

/-- Nodes of items are nodes of one of them. -/
theorem forall_itemNodes {α : Type} {nodes : Place → α → List (Place × Nat)} {here : Place}
    {items : List α} {P : Place × Nat → Prop}
    (h : ∀ i item, items[i]? = some item → ∀ x ∈ nodes (here ++ [.item i]) item, P x) :
    ∀ x ∈ itemNodes nodes here items, P x := by
  intro x hx
  obtain ⟨⟨item, i⟩, hitem, hx⟩ := List.mem_flatMap.mp hx
  exact h i item (List.mem_zipIdx_iff_getElem?.mp hitem) x hx

end Source

end FrameScript
