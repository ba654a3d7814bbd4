/-
  Errors that a document explains.

  An error about a field points at a node that has the fault (`Faulty`), and it reports a line for it
  (`Reported`).  Mostly this is the line of the node.  But an error that the loader raises on the line of
  its cursor is displaced where children of the node have been loaded before: `arguments` are read behind
  the callee, and a body behind the parameters.  And neither the document nor a name in an import list
  moves the cursor to a line of its own.

  `Meets` is a triple over the cursor for loaders that may fail: it says what holds of the result and of
  the cursor afterwards, and that an error is one that the document explains (`Explained`).
-/
import FrameScript.Proofs.Identities
import FrameScript.Proofs.Places

namespace FrameScript

namespace Document

open Json (Value Fields)
open Source

/-! ## Faults -/

/-- The field that an error is about, and the line that it reports. -/
def LoadError.field? : LoadError → Option (String × Nat)
  | .missingField _ field line | .invalidField _ field _ line => some (field, line)
  | .notJson _ | .notAnObject .. => none

/-- What a message says that a field must be. -/
def fits : String → Value → Bool
  | "a string", .string _ => true
  | "a boolean", .bool _ => true
  | "an array", .array _ => true
  | "an array of statements", .array _ => true
  | "a number", .number _ => true
  | "a number", .string s => (Decimal.readDouble? s).isSome
  | _, _ => false

/-- The value counts as one for a field that has to be there. -/
def present : String → Value → Bool
  | "kind", .string _ => true
  | "kind", _ => false
  | "value", .number _ => true
  | "value", .string _ => true
  | "value", _ => false
  | _, .null => false
  | _, _ => true

theorem present_null (field : String) : present field .null = false := by
  unfold present
  split <;> simp_all

/-- A node has the fault that an error names. -/
inductive Faulty (node : Fields) : LoadError → Prop where
  | missing {kind field : String} {line : Nat}
      (h : ∀ value, node.get? field = some value → present field value = false) :
      Faulty node (.missingField kind field line)
  | invalid {kind field expected : String} {line : Nat} {value : Value}
      (h : node.get? field = some value) (hvalue : fits expected value = false) :
      Faulty node (.invalidField kind field expected line)

/-- The node that stands at a place has this line. -/
abbrev Stamped (document : Value) (node : Place × Nat) : Prop :=
  lineAt? skippingDeclarators document node.1 = some node.2

/-- Fields that are read when children of their node have moved the cursor. -/
def readLate : String → Bool
  | "arguments" | "body" => true
  | _ => false

/-- The line on which a fault of a field is reported, given the place of its node. -/
inductive Reported (document : Value) : Place → String → Nat → Prop where
  /-- The line of the node. -/
  | own {place : Place} {field : String} {line : Nat} (hfield : readLate field = false)
      (h : Stamped document (place, line)) : Reported document place field line
  /-- Behind a callee, the line of the last node of the callee. -/
  | callee {place last : Place} {line : Nat} {node : Fields} {inherited : Nat} {kind : String} {e : Expr}
      {c c' : Cursor}
      (hspot : spot? skippingDeclarators document place = some ⟨.object node, inherited, true⟩)
      (hload : (exprField kind "expression" (nodeLine node inherited) node).run c = .ok (e, c'))
      (hlast : (e.nodes (place ++ [.field "expression"])).getLast? = some (last, line))
      (h : Stamped document (last, line)) : Reported document place "arguments" line
  /-- For a body without parameters in front, the line of the node. -/
  | body {place : Place} {line : Nat} {node : Fields}
      (hnode : nodeAt? skippingDeclarators document place = some node)
      (hnone : itemsOf node "parameters" = [])
      (h : Stamped document (place, line)) : Reported document place "body" line
  /-- Behind parameters, the line of the last one. -/
  | parameter {place : Place} {line : Nat} {node : Fields} {i : Nat}
      (hnode : nodeAt? skippingDeclarators document place = some node)
      (hlast : (itemsOf node "parameters").length = i + 1)
      (h : Stamped document (place ++ [.field "parameters"] ++ [.item i], line)) :
      Reported document place "body" line
  /-- For a name in an import list, the line of the import. -/
  | imported {place : Place} {field : String} {line : Nat} (i : Nat) (h : Stamped document (place, line)) :
      Reported document (place ++ [.field "named"] ++ [.item i]) field line
  | file : Reported document [] "file" 0
  | statements : Reported document [] "statements" 1

/-- If the error is about a field, it is one of a node with that fault. -/
def Explained (document : Value) (e : LoadError) : Prop :=
  ∀ field line, e.field? = some (field, line) → ∃ place node,
    nodeAt? skippingDeclarators document place = some node ∧ Faulty node e ∧
      Reported document place field line

/-! ## Triples -/

section Triples

variable {α β : Type} {document : Value} {c : Cursor}

/-- From a cursor the loader gives a result that `Q` holds of, together with the new cursor, or fails with
an error that the document explains. -/
def Meets (document : Value) (c : Cursor) (m : Loader α) (Q : α → Cursor → Prop) : Prop :=
  match m.run c with
  | .ok (a, c') => Q a c'
  | .error e => Explained document e

namespace Meets

variable {Q : α → Cursor → Prop} {R : β → Cursor → Prop}

theorem of_run {m : Loader α} (hok : ∀ a c', m.run c = .ok (a, c') → Q a c')
    (herror : ∀ e, m.run c = .error e → Explained document e) : Meets document c m Q := by
  unfold Meets
  cases hrun : m.run c with
  | error e => exact herror e hrun
  | ok r => exact hok r.1 r.2 hrun

theorem of_ok {m : Loader α} (hm : Meets document c m Q) {a : α} {c' : Cursor}
    (hrun : m.run c = .ok (a, c')) : Q a c' := by
  unfold Meets at hm
  rw [hrun] at hm
  exact hm

theorem of_error {m : Loader α} (hm : Meets document c m Q) {e : LoadError}
    (hrun : m.run c = .error e) : Explained document e := by
  unfold Meets at hm
  rw [hrun] at hm
  exact hm

theorem pure {a : α} (h : Q a c) : Meets document c (Pure.pure a : Loader α) Q := h

theorem throw {e : LoadError} (h : Explained document e) :
    Meets document c (throw e : Loader α) Q := h

theorem lift {action : Builder α} (h : Q (action c).1 (action c).2) :
    Meets document c (liftM action : Loader α) Q := h

theorem bind {m : Loader α} {f : α → Loader β} (hm : Meets document c m Q)
    (hf : ∀ a c', Q a c' → Meets document c' (f a) R) : Meets document c (m >>= f) R := by
  unfold Meets
  rw [StateT.run_bind]
  cases hrun : m.run c with
  | error e => exact hm.of_error hrun
  | ok r => exact hf r.1 r.2 (hm.of_ok hrun)

/-- Reading something leaves the cursor where it is. -/
theorem read {m : Loader α} {f : α → Loader β} (hm : Meets document c m fun _ c' => c' = c)
    (hf : ∀ a, Meets document c (f a) R) : Meets document c (m >>= f) R :=
  hm.bind fun a _ hsame => hsame ▸ hf a

theorem mono {Q' : α → Cursor → Prop} {m : Loader α} (hm : Meets document c m Q)
    (h : ∀ a c', Q a c' → Q' a c') : Meets document c m Q' :=
  of_run (fun a c' hrun => h a c' (hm.of_ok hrun)) fun _ hrun => hm.of_error hrun

/-- The run that gave the result. -/
theorem withRun {m : Loader α} (hm : Meets document c m Q) :
    Meets document c m fun a c' => m.run c = .ok (a, c') ∧ Q a c' :=
  of_run (fun _ _ hrun => ⟨hrun, hm.of_ok hrun⟩) fun _ hrun => hm.of_error hrun

/-- Items are loaded one after the other; `I` is what is known about the cursor in front of each, and
behind the last. -/
theorem mapM {γ : Type} {P : Nat → α → Prop} {I : Nat → Cursor → Prop} {f : γ → Loader α} (xs : List γ)
    (hf : ∀ i x, xs[i]? = some x → ∀ c, I i c →
      Meets document c (f x) fun a c' => P i a ∧ I (i + 1) c')
    (hc : I 0 c) :
    Meets document c (xs.mapM f) fun as c' => (∀ i a, as[i]? = some a → P i a) ∧ I xs.length c' := by
  induction xs generalizing c P I with
  | nil => exact pure ⟨nofun, hc⟩
  | cons x rest ih =>
    rw [List.mapM_cons]
    refine bind (hf 0 x rfl c hc) fun a c₁ ha => ?_
    refine bind (ih (P := fun i => P (i + 1)) (I := fun i => I (i + 1)) (fun i => hf (i + 1)) ha.2)
      fun as c₂ has => pure ⟨fun i b hb => ?_, has.2⟩
    cases i with
    | zero =>
      cases hb
      exact ha.1
    | succ i => exact has.1 i b hb

/-- What is made on the line of a node after a return to it. -/
theorem remade {line : Nat} {action : Builder α}
    (h : ∀ c : Cursor, c.line = line → Q (action c).1 (action c).2) :
    Meets document c (do Builder.moveTo line; action : Loader α) Q :=
  bind (Q := fun _ c' => c'.line = line) (lift rfl) fun _ c hc => lift (h c hc)

end Meets

/-- A field that has to be there and is not. -/
theorem explained_missing {here : Place} {node : Fields} {kind field : String} {line : Nat}
    (hnode : nodeAt? skippingDeclarators document here = some node)
    (h : ∀ value, node.get? field = some value → present field value = false)
    (hline : Reported document here field line) :
    Explained document (.missingField kind field line) := by
  intro field' line' heq
  cases heq
  exact ⟨here, node, hnode, .missing h, hline⟩

/-- A field that is not what it must be. -/
theorem explained_invalid {here : Place} {node : Fields} {kind field expected : String} {line : Nat}
    {value : Value} (hnode : nodeAt? skippingDeclarators document here = some node)
    (hvalue : node.get? field = some value) (hfits : fits expected value = false)
    (hline : Reported document here field line) :
    Explained document (.invalidField kind field expected line) := by
  intro field' line' heq
  cases heq
  exact ⟨here, node, hnode, .invalid hvalue hfits, hline⟩

/-- What is no object is refused otherwise. -/
theorem explained_notAnObject (what : String) (line : Nat) :
    Explained document (.notAnObject what line) := by
  intro field line heq
  cases heq

theorem notAnObject_meets {Q : α → Cursor → Prop} (what : String) (line : Nat) :
    Meets document c (throw (.notAnObject what line) : Loader α) Q :=
  .throw (explained_notAnObject what line)

end Triples

/-! ## Fields -/

section Fields

variable {document : Value} {c : Cursor} {here : Place} {node : Fields} {field : String}

theorem object_meets (value : Value) (what : String) (line : Nat) :
    Meets document c (object value what line) fun node c' => value = .object node ∧ c' = c := by
  unfold object
  split
  · exact .pure ⟨rfl, rfl⟩
  · exact notAnObject_meets what line

theorem enter_meets {inherited : Nat} {handsDown : Bool} (what : String)
    (hspot : spot? skippingDeclarators document here = some ⟨.object node, inherited, handsDown⟩) :
    Meets document c (enter node what inherited) fun entered c' =>
      entered.2 = nodeLine node inherited ∧ c'.line = nodeLine node inherited := by
  unfold enter
  refine .bind (Q := fun _ c' => c'.line = nodeLine node inherited) (.lift rfl) fun _ c' hc' => ?_
  split
  · exact .pure ⟨rfl, hc'⟩
  · next hkind =>
    refine .throw (explained_missing (nodeAt?_eq hspot) (fun value hvalue => ?_)
      (.own rfl (lineAt?_eq hspot)))
    cases value with
    | string s => exact absurd hvalue (hkind s)
    | _ => rfl

section

variable (hnode : nodeAt? skippingDeclarators document here = some node)
  (hline : Reported document here field c.line)

include hnode hline

/-- A field is refused on the line of the cursor. -/
theorem invalid_meets {α : Type} {Q : α → Cursor → Prop} {value : Value} {expected : String}
    (kind : String) (hvalue : node.get? field = some value) (hfits : fits expected value = false) :
    Meets document c (invalid kind field expected : Loader α) Q :=
  explained_invalid hnode hvalue hfits hline

theorem text_meets (kind : String) :
    Meets document c (text node kind field) fun _ c' => c' = c := by
  unfold text
  split
  · exact .pure rfl
  · next value hne hvalue =>
    refine invalid_meets hnode hline kind hvalue ?_
    cases value with
    | string s => exact (hne s rfl).elim
    | _ => rfl
  · next hnone =>
    show Explained document (.missingField kind field c.line)
    refine explained_missing hnode (fun value hvalue => ?_) hline
    cases hnone.symm.trans hvalue

theorem text?_meets (kind : String) :
    Meets document c (text? node kind field) fun _ c' => c' = c := by
  unfold text?
  split
  · exact .pure rfl
  · exact .pure rfl
  · exact .pure rfl
  · next value hne _ hvalue =>
    refine invalid_meets hnode hline kind hvalue ?_
    cases value with
    | string s => exact (hne s rfl).elim
    | _ => rfl

theorem flag_meets (kind : String) :
    Meets document c (flag node kind field) fun _ c' => c' = c := by
  unfold flag
  split
  · exact .pure rfl
  · exact .pure rfl
  · exact .pure rfl
  · next value hne _ hvalue =>
    refine invalid_meets hnode hline kind hvalue ?_
    cases value with
    | bool b => exact (hne b rfl).elim
    | _ => rfl

theorem items_meets (kind : String) :
    Meets document c (items node kind field) fun values c' =>
      c' = c ∧ values = itemsOf node field := by
  unfold items
  split
  · next values hvalue => exact .pure ⟨rfl, by rw [itemsOf, hvalue]⟩
  · next hvalue => exact .pure ⟨rfl, by rw [itemsOf, hvalue]⟩
  · next hvalue => exact .pure ⟨rfl, by rw [itemsOf, hvalue]⟩
  · next value hne _ hvalue =>
    refine invalid_meets hnode hline kind hvalue ?_
    cases value with
    | array values => exact (hne values rfl).elim
    | _ => rfl

end

theorem number_meets (kind : String) {line : Nat}
    (hnode : nodeAt? skippingDeclarators document here = some node) (hown : Stamped document (here, line))
    (hline : c.line = line) : Meets document c (number node kind line) fun _ c' => c' = c := by
  unfold number
  split
  · exact .pure rfl
  · next s hvalue =>
    split
    · exact .pure rfl
    · next hread =>
      refine invalid_meets hnode (.own rfl (hline ▸ hown)) kind hvalue ?_
      show (Decimal.readDouble? s).isSome = false
      rw [hread]
      rfl
  · next hnumber hstring =>
    refine .throw (explained_missing hnode (fun value hvalue => ?_) (.own rfl hown))
    cases value with
    | number n => exact absurd hvalue (hnumber n)
    | string s => exact absurd hvalue (hstring s)
    | _ => rfl

end Fields

end Document

end FrameScript
