/-
  Null fields of a document.

  A field that is `null` may as well be left out of its node.  The loader never asks for this in one
  place: texts, flags, lists, bodies, expressions, numbers, lines and kinds are read by routines of their
  own, each of which looks at `null` for itself, and nodes of an unknown kind are not looked into.

  1. `Sheds v w` says that `w` is `v` without some `null` fields, at any depth.
  2. `Agree m n` is about two loaders that run side by side: from one cursor both give one result and stop
     at one cursor, or both refuse.  It composes along `bind`, so each routine is compared with itself on a
     node that has shed fields.
  3. The loaders agree by induction on the document, one theorem for each of them as they call each other.
-/
import FrameScript.Document.Load
import Mathlib.Data.List.Forall2

namespace FrameScript.Document

open Json (Value Fields)
open Source

/-! ## Leaving out fields -/

mutual

/-- The second value is the first one without some `null` fields, at any depth. -/
inductive Sheds : Value → Value → Prop where
  | null : Sheds .null .null
  | bool (b : Bool) : Sheds (.bool b) (.bool b)
  | number (n : Json.Number) : Sheds (.number n) (.number n)
  | string (s : String) : Sheds (.string s) (.string s)
  | array {items kept : List Value} (h : ShedsAll items kept) : Sheds (.array items) (.array kept)
  | object {fields kept : Fields} (h : ShedsFields fields kept) : Sheds (.object fields) (.object kept)

inductive ShedsAll : List Value → List Value → Prop where
  | nil : ShedsAll [] []
  | cons {v w : Value} {vs ws : List Value} (h : Sheds v w) (hrest : ShedsAll vs ws) :
      ShedsAll (v :: vs) (w :: ws)

/-- A field that goes leaves none of its name behind it.  That is so if the names of a node are distinct. -/
inductive ShedsFields : Fields → Fields → Prop where
  | nil : ShedsFields [] []
  | keep (name : String) {v w : Value} {fs gs : Fields} (h : Sheds v w) (hrest : ShedsFields fs gs) :
      ShedsFields ((name, v) :: fs) ((name, w) :: gs)
  | shed (name : String) {fs gs : Fields} (hgone : gs.get? name = none) (hrest : ShedsFields fs gs) :
      ShedsFields ((name, .null) :: fs) gs

end

mutual

theorem Sheds.refl : ∀ v : Value, Sheds v v
  | .null => .null
  | .bool b => .bool b
  | .number n => .number n
  | .string s => .string s
  | .array items => .array (ShedsAll.refl items)
  | .object fields => .object (ShedsFields.refl fields)

theorem ShedsAll.refl : ∀ items : List Value, ShedsAll items items
  | [] => .nil
  | v :: rest => .cons (Sheds.refl v) (ShedsAll.refl rest)

theorem ShedsFields.refl : ∀ fields : Fields, ShedsFields fields fields
  | [] => .nil
  | (name, v) :: rest => .keep name (Sheds.refl v) (ShedsFields.refl rest)

end

theorem get?_of_not_mem {fs : Fields} {name : String} (h : name ∉ fs.map Prod.fst) : fs.get? name = none := by
  induction fs with
  | nil => rfl
  | cons f rest ih =>
    rw [List.map_cons, List.mem_cons, not_or] at h
    rw [Fields.get?, if_neg (Ne.symm h.1)]
    exact ih h.2

/-- From a node with distinct names any of the `null` fields may go. -/
theorem ShedsFields.filter {fs : Fields} (hnames : (fs.map Prod.fst).Nodup) (stays : String × Value → Bool)
    (hnull : ∀ f ∈ fs, stays f = false → f.2 = .null) : ShedsFields fs (fs.filter stays) := by
  induction fs with
  | nil => exact .nil
  | cons f rest ih =>
    obtain ⟨hname, hrest⟩ := List.nodup_cons.mp hnames
    have hsheds := ih hrest fun g hg => hnull g (List.mem_cons_of_mem f hg)
    cases hstays : stays f with
    | true =>
      rw [List.filter_cons_of_pos hstays]
      exact .keep f.1 (.refl f.2) hsheds
    | false =>
      rw [List.filter_cons_of_neg (ne_true_of_eq_false hstays)]
      obtain ⟨name, v⟩ := f
      obtain rfl : v = .null := hnull _ List.mem_cons_self hstays
      have hgone : name ∉ (rest.filter stays).map Prod.fst := fun hmem =>
        hname ((List.filter_sublist.map Prod.fst).subset hmem)
      exact .shed name (get?_of_not_mem hgone) hsheds

/-- What holds of a field that is kept, of one that is gone and of one that never was holds of each field. -/
@[elab_as_elim]
theorem ShedsFields.lookup {fs gs : Fields} {motive : Option Value → Option Value → Prop}
    (h : ShedsFields fs gs) (field : String)
    (kept : ∀ v w, fs.get? field = some v → gs.get? field = some w → Sheds v w → motive (some v) (some w))
    (gone : motive (some .null) none) (absent : motive none none) :
    motive (fs.get? field) (gs.get? field) := by
  induction fs generalizing gs with
  | nil =>
    cases h
    exact absent
  | cons f rest ih =>
    cases h with
    | keep name hvw hrest =>
      rw [Fields.get?, Fields.get?]
      split
      · rename_i hname
        exact kept _ _ (if_pos hname) (if_pos hname) hvw
      · rename_i hname
        exact ih hrest fun v w hv hw => kept v w ((if_neg hname).trans hv) ((if_neg hname).trans hw)
    | shed name hgone hrest =>
      rw [Fields.get?]
      split
      · rename_i hname
        rwa [← hname, hgone]
      · rename_i hname
        exact ih hrest fun v w hv hw => kept v w ((if_neg hname).trans hv) hw

/-! ## Loaders side by side -/

section Loaders

variable {α β : Type}

/-- Two runs give the same, or neither gives anything. -/
inductive SameEnd : Except LoadError (α × Cursor) → Except LoadError (α × Cursor) → Prop where
  | ok (r : α × Cursor) : SameEnd (.ok r) (.ok r)
  | error (e e' : LoadError) : SameEnd (.error e) (.error e')

/-- Two loaders come to the same end from every cursor. -/
def Agree (m n : Loader α) : Prop := ∀ c, SameEnd (m.run c) (n.run c)

/-- A loader that never gives a result. -/
def Refuses (m : Loader α) : Prop := ∀ c, ∃ e, m.run c = .error e

theorem Refuses.throw (e : LoadError) : Refuses (throw e : Loader α) := fun _ => ⟨e, rfl⟩

theorem Refuses.invalid (kind field expected : String) : Refuses (invalid kind field expected : Loader α) :=
  fun _ => ⟨_, rfl⟩

namespace Agree

theorem refused {m n : Loader α} (hm : Refuses m) (hn : Refuses n) : Agree m n := by
  intro c
  obtain ⟨e, he⟩ := hm c
  obtain ⟨e', he'⟩ := hn c
  rw [he, he']
  exact .error e e'

theorem refl (m : Loader α) : Agree m m := by
  intro c
  cases m.run c with
  | error e => exact .error e e
  | ok r => exact .ok r

theorem next {m n : Loader α} {f g : α → Loader β} (h : Agree m n) (hrest : ∀ a, Agree (f a) (g a)) :
    Agree (m >>= f) (n >>= g) := by
  intro c
  have hc := h c
  rw [StateT.run_bind, StateT.run_bind]
  generalize m.run c = x at hc ⊢
  generalize n.run c = y at hc ⊢
  cases hc with
  | error e e' => exact .error e e'
  | ok r => exact hrest r.1 r.2

end Agree

end Loaders

/-! ## Reading a node that has shed fields -/

section Fields

variable {fs gs : Fields} (h : ShedsFields fs gs)

include h

theorem nodeLine_eq (inherited : Nat) : nodeLine fs inherited = nodeLine gs inherited := by
  have hline : (fs.get? "line").bind Value.natural? = (gs.get? "line").bind Value.natural? := by
    refine h.lookup "line" (fun v w _ _ hvw => ?_) rfl rfl
    cases hvw <;> rfl
  rw [nodeLine, nodeLine, hline]

theorem enter_agrees (what : String) (inherited : Nat) :
    Agree (enter fs what inherited) (enter gs what inherited) := by
  rw [enter, enter, nodeLine_eq h]
  refine .next (.refl _) fun _ => ?_
  refine h.lookup "kind" (fun v w _ _ hvw => ?_) (.refused (.throw _) (.throw _)) (.refl _)
  cases hvw with
  | string kind => exact .refl _
  | _ => exact .refused (.throw _) (.throw _)

theorem text_agrees (kind field : String) : Agree (text fs kind field) (text gs kind field) := by
  rw [text, text]
  have hmissing : Refuses (do throw (.missingField kind field (← Builder.line)) : Loader String) :=
    fun _ => ⟨_, rfl⟩
  refine h.lookup field (fun v w _ _ hvw => ?_) (.refused (.invalid _ _ _) hmissing) (.refl _)
  cases hvw with
  | string s => exact .refl _
  | _ => exact .refused (.invalid _ _ _) (.invalid _ _ _)

theorem text?_agrees (kind field : String) : Agree (text? fs kind field) (text? gs kind field) := by
  rw [text?, text?]
  refine h.lookup field (fun v w _ _ hvw => ?_) (.refl _) (.refl _)
  cases hvw with
  | string s => exact .refl _
  | null => exact .refl _
  | _ => exact .refused (.invalid _ _ _) (.invalid _ _ _)

theorem flag_agrees (kind field : String) : Agree (flag fs kind field) (flag gs kind field) := by
  rw [flag, flag]
  refine h.lookup field (fun v w _ _ hvw => ?_) (.refl _) (.refl _)
  cases hvw with
  | bool b => exact .refl _
  | null => exact .refl _
  | _ => exact .refused (.invalid _ _ _) (.invalid _ _ _)

theorem number_agrees (kind : String) (line : Nat) :
    Agree (number fs kind line) (number gs kind line) := by
  rw [number, number]
  refine h.lookup "value" (fun v w _ _ hvw => ?_) (.refused (.throw _) (.throw _)) (.refl _)
  cases hvw with
  | number n => exact .refl _
  | string s => exact .refl _
  | _ => exact .refused (.throw _) (.throw _)

end Fields

/-! ## Fields that are walked to -/

theorem exprs_eq (line : Nat) (values : List Value) : exprs line values = values.mapM (expr line) := by
  induction values with
  | nil => rfl
  | cons v rest ih => rw [exprs, List.mapM_cons, ih]

theorem stmts_eq (line : Nat) (values : List Value) : stmts line values = values.mapM (stmt line) := by
  induction values with
  | nil => rfl
  | cons v rest ih => rw [stmts, List.mapM_cons, ih]

theorem members_eq (line : Nat) (values : List Value) : members line values = values.mapM (member line) := by
  induction values with
  | nil => rfl
  | cons v rest ih => rw [members, List.mapM_cons, ih]

section Walks

variable {α : Type}

/-- What walks along the fields of a node to the first one of a name looks this field up. -/
theorem walk_eq {walk : Fields → Loader α} {field : String} {missing : Loader α} {read : Value → Loader α}
    (hnil : walk [] = missing)
    (hcons : ∀ name v rest, walk ((name, v) :: rest) = if name = field then read v else walk rest)
    (node : Fields) : walk node = (node.get? field).elim missing read := by
  induction node with
  | nil => exact hnil
  | cons f rest ih =>
    rw [hcons, Fields.get?]
    split
    · rfl
    · exact ih

end Walks

theorem exprField_eq (kind field : String) (line : Nat) (node : Fields) : exprField kind field line node =
    (node.get? field).elim (throw (.missingField kind field line)) fun
      | .null => throw (.missingField kind field line)
      | value => expr line value := by
  refine walk_eq rfl (fun name v rest => ?_) node
  cases v <;> exact exprField.eq_def kind field line _

theorem exprField?_eq (node : Fields) (field : String) (line : Nat) : exprField? node field line =
    (node.get? field).elim (pure none) fun
      | .null => pure none
      | value => do return some (← expr line value) := by
  rw [exprField?]
  cases node.get? field with
  | none => rfl
  | some v => cases v <;> rfl

/-- The items of a field, each of them loaded. -/
def loadItems {α : Type} (kind field : String) (load : Value → Loader α) (node : Fields) : Loader (List α) := do
  (← items node kind field).mapM load

theorem loadItems_eq {α : Type} (kind field : String) (load : Value → Loader α) (node : Fields) :
    loadItems kind field load node = (node.get? field).elim (pure []) fun
      | .array values => values.mapM load
      | .null => pure []
      | _ => invalid kind field "an array" := by
  rw [loadItems, items]
  cases node.get? field with
  | none => rfl
  | some v => cases v <;> rfl

theorem argumentsField_eq (kind : String) (line : Nat) (node : Fields) :
    argumentsField kind line node = loadItems kind "arguments" (expr line) node := by
  rw [loadItems_eq]
  refine walk_eq rfl (fun name v rest => ?_) node
  have hstep := argumentsField.eq_def kind line ((name, v) :: rest)
  simp only [exprs_eq] at hstep
  exact hstep

theorem stmtsField_eq (kind field : String) (line : Nat) (node : Fields) :
    stmtsField kind field line node = loadItems kind field (stmt line) node := by
  rw [loadItems_eq]
  refine walk_eq rfl (fun name v rest => ?_) node
  have hstep := stmtsField.eq_def kind field line ((name, v) :: rest)
  simp only [stmts_eq] at hstep
  exact hstep

theorem membersField_eq (kind : String) (line : Nat) (node : Fields) :
    membersField kind line node = loadItems kind "members" (member line) node := by
  rw [loadItems_eq]
  refine walk_eq rfl (fun name v rest => ?_) node
  have hstep := membersField.eq_def kind line ((name, v) :: rest)
  simp only [members_eq] at hstep
  exact hstep

theorem bodyField_eq (kind : String) (line : Nat) (node : Fields) :
    bodyField kind line node = (node.get? "body").elim (pure none) fun
      | .array values => do return some (← values.mapM (stmt line))
      | .null => pure none
      | _ => invalid kind "body" "an array of statements" := by
  refine walk_eq rfl (fun name v rest => ?_) node
  have hstep := bodyField.eq_def kind line ((name, v) :: rest)
  simp only [stmts_eq] at hstep
  exact hstep

/-! ## Nodes that have shed fields -/

/-- Each loader does the same with two values. -/
structure LoadAlike (v w : Value) : Prop where
  expr : ∀ line, Agree (expr line v) (expr line w)
  stmt : ∀ line, Agree (stmt line v) (stmt line w)
  member : ∀ line, Agree (member line v) (member line w)
  declarator : ∀ line, Agree (declarator line v) (declarator line w)
  param : ∀ line, Agree (param line v) (param line w)
  importName : ∀ line, Agree (importName line v) (importName line w)

/-- The second node is the first one without some `null` fields, and nothing in it loads differently. -/
structure NodesAlike (fs gs : Fields) : Prop where
  sheds : ShedsFields fs gs
  values : ∀ field v w, fs.get? field = some v → gs.get? field = some w → LoadAlike v w
  lists : ∀ field vs ws, fs.get? field = some (.array vs) → gs.get? field = some (.array ws) →
    List.Forall₂ LoadAlike vs ws

theorem mapM_agrees {α : Type} {vs ws : List Value} {load : Value → Loader α}
    (h : List.Forall₂ LoadAlike vs ws) (hload : ∀ v w, LoadAlike v w → Agree (load v) (load w)) :
    Agree (vs.mapM load) (ws.mapM load) := by
  induction h with
  | nil => exact .refl _
  | cons hv _ ih =>
    rw [List.mapM_cons, List.mapM_cons]
    exact .next (hload _ _ hv) fun _ => .next ih fun _ => .refl _

namespace NodesAlike

variable {fs gs : Fields} (h : NodesAlike fs gs)

include h

/-- The items of a field load the same. -/
theorem loadItems {α : Type} (kind field : String) {load : Value → Loader α}
    (hload : ∀ v w, LoadAlike v w → Agree (load v) (load w)) :
    Agree (loadItems kind field load fs) (loadItems kind field load gs) := by
  rw [loadItems_eq, loadItems_eq]
  refine h.sheds.lookup field (fun v w hv hw hvw => ?_) (.refl _) (.refl _)
  cases hvw with
  | array _ => exact mapM_agrees (h.lists field _ _ hv hw) hload
  | null => exact .refl _
  | _ => exact .refused (.invalid _ _ _) (.invalid _ _ _)

/-- So does what is done with them. -/
theorem loadItems_next {α β : Type} (kind field : String) {load : Value → Loader α}
    (hload : ∀ v w, LoadAlike v w → Agree (load v) (load w)) (f : List α → Loader β) :
    Agree (do f (← (← items fs kind field).mapM load)) (do f (← (← items gs kind field).mapM load)) := by
  have hboth := (h.loadItems kind field hload).next fun loaded => .refl (f loaded)
  rw [Document.loadItems, Document.loadItems, bind_assoc, bind_assoc] at hboth
  exact hboth

theorem bodyField (kind : String) (line : Nat) :
    Agree (bodyField kind line fs) (bodyField kind line gs) := by
  rw [bodyField_eq, bodyField_eq]
  refine h.sheds.lookup "body" (fun v w hv hw hvw => ?_) (.refl _) (.refl _)
  cases hvw with
  | array _ =>
    have hbody := mapM_agrees (h.lists "body" _ _ hv hw) fun v w hvw => hvw.stmt line
    exact .next hbody fun _ => .refl _
  | null => exact .refl _
  | _ => exact .refused (.invalid _ _ _) (.invalid _ _ _)

theorem exprField (kind field : String) (line : Nat) :
    Agree (exprField kind field line fs) (exprField kind field line gs) := by
  rw [exprField_eq, exprField_eq]
  refine h.sheds.lookup field (fun v w hv hw hvw => ?_) (.refl _) (.refl _)
  have hvalue := (h.values field v w hv hw).expr line
  cases hvw with
  | null => exact .refl _
  | _ => exact hvalue

theorem exprField? (field : String) (line : Nat) :
    Agree (exprField? fs field line) (exprField? gs field line) := by
  rw [exprField?_eq, exprField?_eq]
  refine h.sheds.lookup field (fun v w hv hw hvw => ?_) (.refl _) (.refl _)
  have hvalue := (h.values field v w hv hw).expr line
  cases hvw with
  | null => exact .refl _
  | _ => exact .next hvalue fun _ => .refl _

theorem arguments (kind : String) (line : Nat) :
    Agree (argumentsField kind line fs) (argumentsField kind line gs) := by
  rw [argumentsField_eq, argumentsField_eq]
  exact h.loadItems kind "arguments" fun _ _ hvw => hvw.expr line

theorem stmtsField (kind field : String) (line : Nat) :
    Agree (stmtsField kind field line fs) (stmtsField kind field line gs) := by
  rw [stmtsField_eq, stmtsField_eq]
  exact h.loadItems kind field fun _ _ hvw => hvw.stmt line

theorem membersField (kind : String) (line : Nat) :
    Agree (membersField kind line fs) (membersField kind line gs) := by
  rw [membersField_eq, membersField_eq]
  exact h.loadItems kind "members" fun _ _ hvw => hvw.member line

theorem params (kind : String) (line : Nat) : Agree (params fs kind line) (params gs kind line) :=
  h.loadItems kind "parameters" fun _ _ hvw => hvw.param line

theorem imports (kind : String) (line : Nat) : Agree (imports fs kind line) (imports gs kind line) := by
  rw [Document.imports, Document.imports]
  refine .next (text_agrees h.sheds _ _) fun module => .next (text?_agrees h.sheds _ _) fun default => ?_
  refine .next (text?_agrees h.sheds _ _) fun namespaceName => ?_
  exact h.loadItems_next kind "named" (fun _ _ hvw => hvw.importName line) _

theorem function (kind : String) (line : Nat) :
    Agree (function fs kind line (Document.bodyField kind line fs))
      (function gs kind line (Document.bodyField kind line gs)) := by
  rw [Document.function, Document.function]
  refine .next (text?_agrees h.sheds _ _) fun name => .next (flag_agrees h.sheds _ _) fun isAsync => ?_
  exact .next (h.params _ _) fun params => .next (h.bodyField _ _) fun body => .refl _

theorem classDef (kind : String) (line : Nat) :
    Agree (classDef fs kind line (Document.membersField kind line fs))
      (classDef gs kind line (Document.membersField kind line gs)) := by
  rw [Document.classDef, Document.classDef]
  refine .next (text?_agrees h.sheds _ _) fun name => .next (text?_agrees h.sheds _ _) fun parent => ?_
  refine .next (flag_agrees h.sheds _ _) fun isDeclared => ?_
  refine .next (flag_agrees h.sheds _ _) fun isAbstract => ?_
  exact .next (h.membersField _ _) fun members => .refl _

theorem declarator (line : Nat) :
    Agree (declarator line (.object fs)) (declarator line (.object gs)) := by
  rw [Document.declarator, Document.declarator, object, object, pure_bind, pure_bind]
  refine .next (h.exprField? _ _) fun initializer => ?_
  rw [nodeLine_eq h.sheds]
  refine .next (.refl _) fun _ => .next (flag_agrees h.sheds _ _) fun isPattern => ?_
  cases isPattern with
  | true => exact .refl _
  | false => exact .next (text_agrees h.sheds _ _) fun name => .refl _

theorem importName (line : Nat) :
    Agree (importName line (.object fs)) (importName line (.object gs)) := by
  rw [Document.importName, Document.importName, object, object, pure_bind, pure_bind]
  exact .next (text_agrees h.sheds _ _) fun name => .next (text?_agrees h.sheds _ _) fun _ => .refl _

theorem param (line : Nat) : Agree (param line (.object fs)) (param line (.object gs)) := by
  rw [Document.param, Document.param, object, object, pure_bind, pure_bind, nodeLine_eq h.sheds]
  refine .next (.refl _) fun _ => .next (flag_agrees h.sheds _ _) fun rest => ?_
  refine .next (text?_agrees h.sheds _ _) fun type => .next (flag_agrees h.sheds _ _) fun isPattern => ?_
  cases isPattern with
  | true => exact .refl _
  | false => exact .next (text_agrees h.sheds _ _) fun name => .refl _

theorem expr (inherited : Nat) :
    Agree (expr inherited (.object fs)) (expr inherited (.object gs)) := by
  rw [Document.expr, Document.expr]
  refine .next (enter_agrees h.sheds _ _) fun entered => ?_
  obtain ⟨kind, line⟩ := entered
  refine .next (text?_agrees h.sheds _ _) fun type => ?_
  dsimp only
  -- one case for each kind of node, whose fields are read from left to right
  split
  · exact .next (number_agrees h.sheds _ _) fun _ => .refl _
  · exact .refl _
  · exact .refl _
  · exact .refl _
  · exact .refl _
  · exact .refl _
  · exact .next (text_agrees h.sheds _ _) fun _ => .refl _
  · refine .next (text_agrees h.sheds _ _) fun _ => ?_
    exact .next (h.exprField _ _ _) fun _ => .next (h.exprField _ _ _) fun _ => .refl _
  · exact .next (text_agrees h.sheds _ _) fun _ => .next (h.exprField _ _ _) fun _ => .refl _
  · exact .next (text_agrees h.sheds _ _) fun _ => .next (h.exprField _ _ _) fun _ => .refl _
  · exact .next (h.exprField _ _ _) fun _ => .next (h.arguments _ _) fun _ => .refl _
  · exact .next (h.exprField _ _ _) fun _ => .next (h.arguments _ _) fun _ => .refl _
  · exact .next (text_agrees h.sheds _ _) fun _ => .next (h.exprField _ _ _) fun _ => .refl _
  · exact .next (h.exprField _ _ _) fun _ => .refl _
  · exact .next (h.exprField _ _ _) fun _ => .refl _
  · exact .next (h.exprField _ _ _) fun _ => .refl _
  · exact .next (h.exprField _ _ _) fun _ => .refl _
  · exact .next (h.exprField _ _ _) fun _ => .refl _
  · exact .refl _

theorem stmt (inherited : Nat) :
    Agree (stmt inherited (.object fs)) (stmt inherited (.object gs)) := by
  rw [Document.stmt, Document.stmt]
  refine .next (enter_agrees h.sheds _ _) fun entered => ?_
  obtain ⟨kind, line⟩ := entered
  dsimp only
  split
  · exact .next (h.stmtsField _ _ _) fun _ => .refl _
  · exact .next (h.imports _ _) fun _ => .refl _
  · exact h.loadItems_next _ "declarations" (fun _ _ hvw => hvw.declarator line) _
  · exact .next (h.exprField _ _ _) fun _ => .refl _
  · exact .next (h.exprField? _ _) fun _ => .refl _
  · exact .next (h.function _ _) fun _ => .refl _
  · exact .next (h.classDef _ _) fun _ => .refl _
  · exact .refl _
  · exact .refl _
  · exact .refl _
  · exact .refl _

theorem member (inherited : Nat) :
    Agree (member inherited (.object fs)) (member inherited (.object gs)) := by
  rw [Document.member, Document.member]
  refine .next (enter_agrees h.sheds _ _) fun entered => ?_
  obtain ⟨kind, line⟩ := entered
  dsimp only
  split
  · refine .next (flag_agrees h.sheds _ _) fun isStatic => .next (text_agrees h.sheds _ _) fun _ => ?_
    exact .next (h.function _ _) fun _ => .refl _
  · exact .next (h.params _ _) fun _ => .next (h.stmtsField _ _ _) fun _ => .refl _
  · refine .next (text_agrees h.sheds _ _) fun name => .next (flag_agrees h.sheds _ _) fun isStatic => ?_
    exact .next (h.exprField? _ _) fun _ => .refl _
  · exact .refl _

end NodesAlike

/-! ## All values that have shed fields -/

namespace LoadAlike

theorem refl (v : Value) : LoadAlike v v :=
  ⟨fun _ => .refl _, fun _ => .refl _, fun _ => .refl _, fun _ => .refl _, fun _ => .refl _, fun _ => .refl _⟩

/-- An array is no node. -/
theorem arrays (vs ws : List Value) : LoadAlike (.array vs) (.array ws) := by
  constructor <;> exact fun _ => .refused (.throw _) (.throw _)

theorem object {fs gs : Fields} (h : NodesAlike fs gs) : LoadAlike (.object fs) (.object gs) :=
  ⟨h.expr, h.stmt, h.member, h.declarator, h.param, h.importName⟩

end LoadAlike

namespace NodesAlike

variable {fs gs : Fields}

theorem nil : NodesAlike [] [] := ⟨.nil, nofun, nofun⟩

theorem keep (h : NodesAlike fs gs) (name : String) {v w : Value} (hv : Sheds v w) (hvalue : LoadAlike v w)
    (hlist : ∀ vs ws, v = .array vs → w = .array ws → List.Forall₂ LoadAlike vs ws) :
    NodesAlike ((name, v) :: fs) ((name, w) :: gs) := by
  refine ⟨.keep name hv h.sheds, fun field v' w' hv' hw' => ?_, fun field vs ws hvs hws => ?_⟩
  · rw [Fields.get?] at hv' hw'
    split at hv'
    · rename_i hname
      rw [if_pos hname] at hw'
      cases hv'
      cases hw'
      exact hvalue
    · rename_i hname
      rw [if_neg hname] at hw'
      exact h.values field v' w' hv' hw'
  · rw [Fields.get?] at hvs hws
    split at hvs
    · rename_i hname
      rw [if_pos hname] at hws
      exact hlist vs ws (Option.some.inj hvs) (Option.some.inj hws)
    · rename_i hname
      rw [if_neg hname] at hws
      exact h.lists field vs ws hvs hws

theorem shed (h : NodesAlike fs gs) (name : String) (hgone : gs.get? name = none) :
    NodesAlike ((name, .null) :: fs) gs := by
  have hother : ∀ field v w, Fields.get? ((name, .null) :: fs) field = some v → gs.get? field = some w →
      fs.get? field = some v := by
    intro field v w hv hw
    rw [Fields.get?] at hv
    split at hv
    · rename_i hname
      rw [← hname, hgone] at hw
      cases hw
    · exact hv
  exact ⟨.shed name hgone h.sheds, fun field v w hv hw => h.values field v w (hother field v w hv hw) hw,
    fun field vs ws hvs hws => h.lists field vs ws (hother field _ _ hvs hws) hws⟩

end NodesAlike

mutual

/-- **A value without some `null` fields loads like the value with them**, whatever it is loaded as. -/
theorem sheds_alike : ∀ v w, Sheds v w → LoadAlike v w
  | .object fs, .object gs, .object h => .object (fields_alike fs gs h)
  | .array vs, .array ws, .array _ => .arrays vs ws
  | .null, _, .null | .bool _, _, .bool _ | .number _, _, .number _ | .string _, _, .string _ => .refl _

theorem items_alike : ∀ vs ws, ShedsAll vs ws → List.Forall₂ LoadAlike vs ws
  | [], [], .nil => .nil
  | v :: vs, w :: ws, .cons h hrest => .cons (sheds_alike v w h) (items_alike vs ws hrest)

theorem arrays_alike : ∀ v w, Sheds v w → ∀ vs ws, v = .array vs → w = .array ws →
    List.Forall₂ LoadAlike vs ws
  | .array vs, .array ws, .array h, _, _, rfl, rfl => items_alike vs ws h

theorem fields_alike : ∀ fs gs, ShedsFields fs gs → NodesAlike fs gs
  | [], [], .nil => .nil
  | (_, v) :: fs, (_, w) :: gs, .keep name h hrest =>
    (fields_alike fs gs hrest).keep name h (sheds_alike v w h) (arrays_alike v w h)
  | _ :: fs, gs, .shed name hgone hrest => (fields_alike fs gs hrest).shed name hgone

end

/-- The second document is the first one without some `null` fields inside its statements. -/
inductive ShedsInside : Value → Value → Prop where
  | same (document : Value) : ShedsInside document document
  | statements (front behind : Fields) {items kept : List Value} (h : ShedsAll items kept) :
      ShedsInside (.object (front ++ ("statements", .array items) :: behind))
        (.object (front ++ ("statements", .array kept) :: behind))

theorem get?_around (front behind : Fields) {name field : String} (v w : Value) (h : name ≠ field) :
    Fields.get? (front ++ (name, v) :: behind) field = Fields.get? (front ++ (name, w) :: behind) field := by
  induction front with
  | nil =>
    rw [List.nil_append, List.nil_append, Fields.get?, Fields.get?, if_neg h, if_neg h]
  | cons f rest ih =>
    rw [List.cons_append, List.cons_append, Fields.get?, Fields.get?, ih]

theorem ShedsFields.around (front behind : Fields) (name : String) {v w : Value} (h : Sheds v w) :
    ShedsFields (front ++ (name, v) :: behind) (front ++ (name, w) :: behind) := by
  induction front with
  | nil => exact .keep name h (.refl behind)
  | cons f rest ih => exact .keep f.1 (.refl f.2) ih

/-- **Null means absent.**  Without some `null` fields inside its statements a document has a unit just
if it has one with them, and this is the same unit. -/
theorem null_is_absent {document pruned : Value} (h : ShedsInside document pruned) (fallback : String)
    (u : CompilationUnit) : load pruned fallback = .ok u ↔ load document fallback = .ok u := by
  cases h with
  | same => exact Iff.rfl
  | @statements front behind items kept h =>
    have hsheds := ShedsFields.around front behind "statements" (.array h)
    have hagree := (fields_alike _ _ hsheds).stmtsField "document" "statements" 0 {}
    -- the name of the file is no part of the statements
    have hfile : fileField (front ++ ("statements", .array kept) :: behind) fallback =
        fileField (front ++ ("statements", .array items) :: behind) fallback := by
      rw [fileField, fileField, get?_around front behind (.array kept) (.array items) (by decide)]
    rw [load, load, hfile]
    cases fileField (front ++ ("statements", .array items) :: behind) fallback with
    | error e => exact Iff.rfl
    | ok file =>
      generalize StateT.run _ _ = x at hagree ⊢
      generalize StateT.run _ _ = y at hagree ⊢
      cases hagree with
      | error e e' => constructor <;> intro hload <;> cases hload
      | ok r => exact Iff.rfl

/-- A document of one function, `function f() { return }`, with more fields in both of its nodes. -/
def bareDocument (function returning : Fields) : Value :=
  .object ([("file", .string "main.ts")] ++ ("statements", .array [.object (
    ("kind", .string "FunctionDeclaration") :: ("name", .string "f") ::
    ("body", .array [.object (("kind", .string "ReturnStatement") :: ("line", .ofNat 2) :: returning)]) ::
    function)]) :: [])

/-- The document with `null` for all that its nodes have a value of their own for. -/
def sparseDocument : Value :=
  bareDocument [("parameters", .null), ("async", .null), ("line", .null)] [("expression", .null)]

/-- The function without parameters and the return without a value. -/
def bareUnit : CompilationUnit :=
  .ofFile "main.ts" [.function ⟨0, some "f", [], some [.returning 2 none], false, 0⟩] 1

theorem null_is_absent_bare : ShedsInside sparseDocument (bareDocument [] []) ∧
    load sparseDocument "main.ts" = .ok bareUnit ∧ load (bareDocument [] []) "main.ts" = .ok bareUnit := by
  have hreturn : ShedsFields
      [("kind", .string "ReturnStatement"), ("line", .ofNat 2), ("expression", .null)]
      [("kind", .string "ReturnStatement"), ("line", .ofNat 2)] :=
    ShedsFields.filter (by decide) (fun f => f.1 ≠ "expression") (by simp)
  have hfunction : ShedsFields [("parameters", .null), ("async", .null), ("line", .null)] [] :=
    ShedsFields.filter (by decide) (fun _ => false) (by simp)
  have hsheds : ShedsInside sparseDocument (bareDocument [] []) :=
    .statements _ _ (.cons (.object (.keep _ (.refl _) (.keep _ (.refl _)
      (.keep "body" (.array (.cons (.object hreturn) .nil)) hfunction)))) .nil)
  have hload : load sparseDocument "main.ts" = .ok bareUnit := rfl
  exact ⟨hsheds, hload, (null_is_absent hsheds "main.ts" bareUnit).mpr hload⟩

end FrameScript.Document
