/-
  Declaration ids are the declarations' own.

  Everything that is learned about a declaration is kept under its id, so two declarations of a unit
  must not share one.  The loader hands the ids out by a counter, and a declaration takes its id after
  all declarations inside it.  So what is loaded between two cursors has just the ids between theirs,
  in the order in which the declarations end (`Numbered`): two neighbours use ranges that follow each
  other, and a declaration closes the range of what is inside it.

  A loaded unit starts at zero and ends at its count.  Hence its ids are pairwise distinct
  (`load_nodup`) and dense, and each is greater than all ids inside (`load_numbers`).

  Most of the loader hands out no id at all (`Quiet`); that part is shown first.
-/
import FrameScript.Document.Load
import Mathlib.Data.List.Nodup

namespace FrameScript

open Source

/-! ## The ids inside a statement -/

mutual

/-- The ids of all declarations inside a statement. -/
def Source.Stmt.declIds : Stmt → List DeclId
  | .block _ body => Source.declIds body
  | .function f => f.declIds
  | .classDef c => c.declIds
  | _ => []

/-- The ids of all declarations inside some statements. -/
def Source.declIds : List Stmt → List DeclId
  | [] => []
  | st :: rest => st.declIds ++ Source.declIds rest

/-- The id of a function, then the ids inside its body. -/
def Source.FunctionDecl.declIds : FunctionDecl → List DeclId
  | ⟨id, _, _, some body, _, _⟩ => id :: Source.declIds body
  | ⟨id, _, _, none, _, _⟩ => [id]

/-- The id of a class, then the ids inside its members. -/
def Source.ClassDecl.declIds : ClassDecl → List DeclId
  | ⟨id, _, _, _, _, members, _⟩ => id :: Source.memberIds members

/-- The ids inside a member of a class. -/
def Source.Member.declIds : Member → List DeclId
  | .method f _ => f.declIds
  | .constructor f => f.declIds
  | .property _ | .other .. => []

/-- The ids inside some members of a class. -/
def Source.memberIds : List Member → List DeclId
  | [] => []
  | m :: rest => m.declIds ++ Source.memberIds rest

end

/-- The ids inside a body, if there is one. -/
def Source.bodyIds : Option (List Stmt) → List DeclId
  | some body => Source.declIds body
  | none => []

theorem Source.FunctionDecl.declIds_eq (f : FunctionDecl) : f.declIds = f.id :: bodyIds f.body := by
  obtain ⟨id, name, params, body, isAsync, line⟩ := f
  cases body <;> rfl

theorem Source.ClassDecl.declIds_eq (c : ClassDecl) : c.declIds = c.id :: memberIds c.members := by
  obtain ⟨id, name, parent, isDeclared, isAbstract, members, line⟩ := c
  rfl

/-! ## The declarations inside a statement -/

/-- A declaration that has an id: a function, method or constructor, or a class. -/
inductive Source.Decl where
  | function (f : FunctionDecl)
  | classDef (c : ClassDecl)

def Source.Decl.id : Decl → DeclId
  | .function f => f.id
  | .classDef c => c.id

mutual

/-- All declarations inside a statement, in the order in which they end. -/
def Source.Stmt.decls : Stmt → List Decl
  | .block _ body => Source.decls body
  | .function f => f.decls
  | .classDef c => c.decls
  | _ => []

def Source.decls : List Stmt → List Decl
  | [] => []
  | st :: rest => st.decls ++ Source.decls rest

/-- The declarations inside the body of a function, then the function. -/
def Source.FunctionDecl.decls : FunctionDecl → List Decl
  | ⟨id, name, params, some body, isAsync, line⟩ =>
    Source.decls body ++ [.function ⟨id, name, params, some body, isAsync, line⟩]
  | ⟨id, name, params, none, isAsync, line⟩ => [.function ⟨id, name, params, none, isAsync, line⟩]

/-- The declarations inside the members of a class, then the class. -/
def Source.ClassDecl.decls : ClassDecl → List Decl
  | ⟨id, name, parent, isDeclared, isAbstract, members, line⟩ =>
    Source.memberDecls members ++ [.classDef ⟨id, name, parent, isDeclared, isAbstract, members, line⟩]

def Source.Member.decls : Member → List Decl
  | .method f _ => f.decls
  | .constructor f => f.decls
  | .property _ | .other .. => []

def Source.memberDecls : List Member → List Decl
  | [] => []
  | m :: rest => m.decls ++ Source.memberDecls rest

end

/-- The declarations inside a body, if there is one. -/
def Source.bodyDecls : Option (List Stmt) → List Decl
  | some body => Source.decls body
  | none => []

/-- The declarations nested inside a declaration. -/
def Source.Decl.inner : Decl → List Decl
  | .function f => bodyDecls f.body
  | .classDef c => memberDecls c.members

theorem Source.FunctionDecl.decls_eq (f : FunctionDecl) :
    f.decls = bodyDecls f.body ++ [.function f] := by
  obtain ⟨id, name, params, body, isAsync, line⟩ := f
  cases body <;> rfl

theorem Source.ClassDecl.decls_eq (c : ClassDecl) :
    c.decls = memberDecls c.members ++ [.classDef c] := by
  obtain ⟨id, name, parent, isDeclared, isAbstract, members, line⟩ := c
  rfl

/-! A declaration ends right after the last of those inside it. -/

/-- A stretch of the declarations ends with each of them, and is made of those inside it before. -/
def Source.Nested (all : List Decl) : Prop := ∀ d ∈ all, d.inner ++ [d] <:+: all

namespace Source.Nested

theorem nil : Nested [] := fun _ hd => absurd hd List.not_mem_nil

theorem append {xs ys : List Decl} (hxs : Nested xs) (hys : Nested ys) : Nested (xs ++ ys) := by
  intro d hd
  rcases List.mem_append.mp hd with hd | hd
  · exact (hxs d hd).trans (List.prefix_append xs ys).isInfix
  · exact (hys d hd).trans (List.suffix_append xs ys).isInfix

/-- A declaration behind all that is inside it. -/
theorem snoc {d : Decl} (h : Nested d.inner) : Nested (d.inner ++ [d]) := by
  intro e he
  rcases List.mem_append.mp he with he | he
  · exact (h e he).trans (List.prefix_append _ _).isInfix
  · cases List.mem_singleton.mp he
    exact List.infix_refl _

end Source.Nested

mutual

theorem Source.nested_stmt : ∀ st : Stmt, Nested st.decls
  | .block _ body => nested_stmts body
  | .function f => nested_function f
  | .classDef c => nested_classDef c
  | .imports .. | .bindings .. | .expression .. | .returning .. | .typeOnly _ | .empty _ | .other .. =>
    .nil

theorem Source.nested_stmts : ∀ body : List Stmt, Nested (decls body)
  | [] => .nil
  | st :: rest => (nested_stmt st).append (nested_stmts rest)

theorem Source.nested_function : ∀ f : FunctionDecl, Nested f.decls
  | ⟨_, _, _, some body, _, _⟩ => .snoc (d := .function ⟨_, _, _, some body, _, _⟩) (nested_stmts body)
  | ⟨_, _, _, none, _, _⟩ => .snoc (d := .function ⟨_, _, _, none, _, _⟩) .nil

theorem Source.nested_classDef : ∀ c : ClassDecl, Nested c.decls
  | ⟨_, _, _, _, _, members, _⟩ =>
    .snoc (d := .classDef ⟨_, _, _, _, _, members, _⟩) (nested_members members)

theorem Source.nested_member : ∀ m : Member, Nested m.decls
  | .method f _ => nested_function f
  | .constructor f => nested_function f
  | .property _ | .other .. => .nil

theorem Source.nested_members : ∀ ms : List Member, Nested (memberDecls ms)
  | [] => .nil
  | m :: rest => (nested_member m).append (nested_members rest)

end

/-! The ids are those of the declarations, in another order. -/

/-- The ids of some declarations, in order. -/
def Source.idsOf (ds : List Decl) : List DeclId := ds.map Decl.id

theorem Source.idsOf_append (xs ys : List Decl) : idsOf (xs ++ ys) = idsOf xs ++ idsOf ys :=
  List.map_append

/-- An id in front of those inside or behind them. -/
theorem Source.own_perm {ids : List DeclId} {inner : List Decl} (d : Decl) (h : ids.Perm (idsOf inner)) :
    (d.id :: ids).Perm (idsOf (inner ++ [d])) := by
  rw [idsOf_append]
  exact (h.cons d.id).trans (List.perm_append_singleton d.id _).symm

mutual

theorem Source.stmtIds_perm : ∀ st : Stmt, st.declIds.Perm (idsOf st.decls)
  | .block _ body => declIds_perm body
  | .function f => functionIds_perm f
  | .classDef c => classIds_perm c
  | .imports .. | .bindings .. | .expression .. | .returning .. | .typeOnly _ | .empty _ | .other .. =>
    .nil

theorem Source.declIds_perm : ∀ body : List Stmt, (declIds body).Perm (idsOf (decls body))
  | [] => .nil
  | st :: rest => by
    rw [declIds, decls, idsOf_append]
    exact (stmtIds_perm st).append (declIds_perm rest)

theorem Source.functionIds_perm : ∀ f : FunctionDecl, f.declIds.Perm (idsOf f.decls)
  | ⟨_, _, _, some body, _, _⟩ => own_perm (.function ⟨_, _, _, some body, _, _⟩) (declIds_perm body)
  | ⟨_, _, _, none, _, _⟩ => .refl _

theorem Source.classIds_perm : ∀ c : ClassDecl, c.declIds.Perm (idsOf c.decls)
  | ⟨_, _, _, _, _, members, _⟩ =>
    own_perm (.classDef ⟨_, _, _, _, _, members, _⟩) (memberIds_perm members)

theorem Source.memberDeclIds_perm : ∀ m : Member, m.declIds.Perm (idsOf m.decls)
  | .method f _ => functionIds_perm f
  | .constructor f => functionIds_perm f
  | .property _ | .other .. => .nil

theorem Source.memberIds_perm : ∀ ms : List Member, (memberIds ms).Perm (idsOf (memberDecls ms))
  | [] => .nil
  | m :: rest => by
    rw [memberIds, memberDecls, idsOf_append]
    exact (memberDeclIds_perm m).append (memberIds_perm rest)

end

namespace Document

open Json (Value Fields)

/-- How many ids have been handed out at a cursor. -/
def count (c : Cursor) : Nat := c.nextDecl

section Loaders

variable {α β : Type}

theorem bind_ok {m : Loader α} {f : α → Loader β} {c c' : Cursor} {b : β}
    (h : (m >>= f).run c = .ok (b, c')) :
    ∃ a c₁, m.run c = .ok (a, c₁) ∧ (f a).run c₁ = .ok (b, c') := by
  rw [StateT.run_bind] at h
  cases hm : m.run c with
  | error e => rw [hm] at h; cases h
  | ok r => rw [hm] at h; exact ⟨r.1, r.2, rfl, h⟩

/-! ## Loaders that hand out no id -/

/-- The loader hands out no declaration id. -/
def Quiet (m : Loader α) : Prop :=
  ∀ (c c' : Cursor) (a : α), m.run c = .ok (a, c') → count c' = count c

namespace Quiet

theorem bind {m : Loader α} {f : α → Loader β} (hm : Quiet m) (hf : ∀ a, Quiet (f a)) :
    Quiet (m >>= f) := by
  intro c c' b h
  obtain ⟨a, c₁, h₁, h₂⟩ := bind_ok h
  rw [hf a c₁ c' b h₂, hm c c₁ a h₁]

theorem pure (a : α) : Quiet (Pure.pure a : Loader α) := by
  intro c c' b h
  cases h
  rfl

theorem throw (e : LoadError) : Quiet (throw e : Loader α) := by
  intro c c' b h
  cases h

/-- A builder that keeps the counter. -/
theorem lift {action : Builder α} (haction : ∀ c : Cursor, count (action c).2 = count c) :
    Quiet (liftM action : Loader α) := by
  intro c c' b h
  have hrun : (liftM action : Loader α).run c = .ok (action c) := rfl
  rw [hrun] at h
  have hpair : action c = (b, c') := Except.ok.inj h
  rw [← haction c, hpair]

theorem moveTo (line : Nat) : Quiet (liftM (Builder.moveTo line) : Loader Unit) :=
  lift fun _ => rfl

theorem invalid (kind field expected : String) : Quiet (invalid kind field expected : Loader α) :=
  bind (lift fun _ => rfl) fun _ => throw _

theorem mapM {γ : Type} {f : γ → Loader α} (hf : ∀ x, Quiet (f x)) (xs : List γ) :
    Quiet (xs.mapM f) := by
  induction xs with
  | nil => exact pure _
  | cons x rest ih =>
    rw [List.mapM_cons]
    exact bind (hf x) fun _ => bind ih fun _ => pure _

end Quiet

end Loaders

/-! ## Fields -/

theorem quiet_enter (node : Fields) (what : String) (inherited : Nat) :
    Quiet (enter node what inherited) := by
  refine Quiet.bind (Quiet.moveTo _) fun _ => ?_
  split
  · exact Quiet.pure _
  · exact Quiet.throw _

theorem quiet_text (node : Fields) (kind field : String) : Quiet (text node kind field) := by
  unfold text
  split
  · exact Quiet.pure _
  · exact Quiet.invalid _ _ _
  · exact Quiet.bind (Quiet.lift fun _ => rfl) fun _ => Quiet.throw _

theorem quiet_text? (node : Fields) (kind field : String) : Quiet (text? node kind field) := by
  unfold text?
  split
  · exact Quiet.pure _
  · exact Quiet.pure _
  · exact Quiet.pure _
  · exact Quiet.invalid _ _ _

theorem quiet_flag (node : Fields) (kind field : String) : Quiet (flag node kind field) := by
  unfold flag
  split
  · exact Quiet.pure _
  · exact Quiet.pure _
  · exact Quiet.pure _
  · exact Quiet.invalid _ _ _

theorem quiet_items (node : Fields) (kind field : String) : Quiet (items node kind field) := by
  unfold items
  split
  · exact Quiet.pure _
  · exact Quiet.pure _
  · exact Quiet.pure _
  · exact Quiet.invalid _ _ _

theorem quiet_object (value : Value) (what : String) (line : Nat) :
    Quiet (object value what line) := by
  unfold object
  split
  · exact Quiet.pure _
  · exact Quiet.throw _

theorem quiet_number (node : Fields) (kind : String) (line : Nat) :
    Quiet (number node kind line) := by
  unfold number
  split
  · exact Quiet.pure _
  · split
    · exact Quiet.pure _
    · exact Quiet.invalid _ _ _
  · exact Quiet.throw _

/-! ## Expressions -/

mutual

theorem quiet_expr (inherited : Nat) : ∀ value, Quiet (expr inherited value)
  | .object node => by
    rw [expr]
    refine Quiet.bind (quiet_enter node _ _) fun (kind, line) => ?_
    refine Quiet.bind (quiet_text? node _ _) fun type => ?_
    have hfield := fun field => quiet_exprField kind field line node
    have harguments := quiet_argumentsField kind line node
    dsimp only
    split
    · exact Quiet.bind (quiet_number node _ _) fun _ => Quiet.pure _
    · exact Quiet.pure _
    · exact Quiet.pure _
    · exact Quiet.pure _
    · exact Quiet.pure _
    · exact Quiet.pure _
    · exact Quiet.bind (quiet_text node _ _) fun _ => Quiet.pure _
    · refine Quiet.bind (quiet_text node _ _) fun _ => Quiet.bind (hfield _) fun _ => ?_
      exact Quiet.bind (hfield _) fun _ => Quiet.pure _
    · exact Quiet.bind (quiet_text node _ _) fun _ => Quiet.bind (hfield _) fun _ => Quiet.pure _
    · exact Quiet.bind (quiet_text node _ _) fun _ => Quiet.bind (hfield _) fun _ => Quiet.pure _
    · exact Quiet.bind (hfield _) fun _ => Quiet.bind harguments fun _ => Quiet.pure _
    · exact Quiet.bind (hfield _) fun _ => Quiet.bind harguments fun _ => Quiet.pure _
    · exact Quiet.bind (quiet_text node _ _) fun _ => Quiet.bind (hfield _) fun _ => Quiet.pure _
    · exact Quiet.bind (hfield _) fun _ => Quiet.pure _
    · exact Quiet.bind (hfield _) fun _ => Quiet.pure _
    · exact Quiet.bind (hfield _) fun _ => Quiet.pure _
    · exact Quiet.bind (hfield _) fun _ => Quiet.pure _
    · exact Quiet.bind (hfield _) fun _ => Quiet.pure _
    · exact Quiet.pure _
  | .null | .bool _ | .number _ | .string _ | .array _ => Quiet.throw _

theorem quiet_exprField (kind field : String) (line : Nat) :
    ∀ node, Quiet (exprField kind field line node)
  | [] => Quiet.throw _
  | (name, value) :: rest => by
    have hvalue := quiet_expr line value
    have hrest := quiet_exprField kind field line rest
    rw [exprField.eq_def]
    dsimp only
    split
    · split
      · exact Quiet.throw _
      · exact hvalue
    · exact hrest

theorem quiet_argumentsField (kind : String) (line : Nat) :
    ∀ node, Quiet (argumentsField kind line node)
  | [] => Quiet.pure _
  | (name, value) :: rest => by
    have hrest := quiet_argumentsField kind line rest
    rw [argumentsField.eq_def]
    dsimp only
    split
    · cases value with
      | array values => exact quiet_exprs line values
      | null => exact Quiet.pure _
      | _ => exact Quiet.invalid _ _ _
    · exact hrest

theorem quiet_exprs (line : Nat) : ∀ values, Quiet (exprs line values)
  | [] => Quiet.pure _
  | value :: rest => by
    have hvalue := quiet_expr line value
    have hrest := quiet_exprs line rest
    rw [exprs]
    exact Quiet.bind hvalue fun _ => Quiet.bind hrest fun _ => Quiet.pure _

end

theorem quiet_exprField? (node : Fields) (field : String) (line : Nat) :
    Quiet (exprField? node field line) := by
  unfold exprField?
  split
  · exact Quiet.pure _
  · exact Quiet.pure _
  · exact Quiet.bind (quiet_expr _ _) fun _ => Quiet.pure _

theorem quiet_declarator (line : Nat) (value : Value) : Quiet (declarator line value) := by
  refine Quiet.bind (quiet_object _ _ _) fun node => ?_
  refine Quiet.bind (quiet_exprField? _ _ _) fun initializer => ?_
  refine Quiet.bind (Quiet.moveTo _) fun _ => Quiet.bind (quiet_flag _ _ _) fun pattern => ?_
  split
  · exact Quiet.lift fun _ => rfl
  · exact Quiet.bind (quiet_text _ _ _) fun _ => Quiet.lift fun _ => rfl

theorem quiet_imports (node : Fields) (kind : String) (line : Nat) :
    Quiet (imports node kind line) := by
  have hname : ∀ value, Quiet (importName line value) := fun value =>
    Quiet.bind (quiet_object _ _ _) fun _ => Quiet.bind (quiet_text _ _ _) fun _ =>
      Quiet.bind (quiet_text? _ _ _) fun _ => Quiet.pure _
  refine Quiet.bind (quiet_text _ _ _) fun module => Quiet.bind (quiet_text? _ _ _) fun default => ?_
  refine Quiet.bind (quiet_text? _ _ _) fun namespaceName => ?_
  refine Quiet.bind (quiet_items _ _ _) fun named => ?_
  exact Quiet.bind (Quiet.mapM hname named) fun _ => Quiet.pure _

theorem quiet_params (node : Fields) (kind : String) (line : Nat) :
    Quiet (params node kind line) := by
  refine Quiet.bind (quiet_items _ _ _) fun values => Quiet.mapM (fun value => ?_) values
  refine Quiet.bind (quiet_object _ _ _) fun node => Quiet.bind (Quiet.moveTo _) fun _ => ?_
  refine Quiet.bind (quiet_flag _ _ _) fun rest => Quiet.bind (quiet_text? _ _ _) fun type => ?_
  refine Quiet.bind (quiet_flag _ _ _) fun pattern => ?_
  split
  · exact Quiet.bind (Quiet.pure _) fun _ => Quiet.lift fun _ => rfl
  · refine Quiet.bind (quiet_text _ _ _) fun _ => Quiet.bind (Quiet.pure _) fun _ => ?_
    exact Quiet.lift fun _ => rfl

/-! ## Loaders that hand out ids -/

/-- Just the ids that the counter went through between two cursors, in order. -/
structure Numbered (c c' : Cursor) (ids : List DeclId) : Prop where
  count_eq : count c' = count c + ids.length
  ids_eq : ids = List.range' (count c) ids.length

namespace Numbered

variable {c c₁ c₂ : Cursor} {xs ys : List DeclId}

theorem nothing (h : count c₁ = count c) : Numbered c c₁ [] := ⟨h, rfl⟩

theorem before (h : count c₁ = count c) (hxs : Numbered c₁ c₂ xs) : Numbered c c₂ xs where
  count_eq := h ▸ hxs.count_eq
  ids_eq := h ▸ hxs.ids_eq

theorem after (hxs : Numbered c c₁ xs) (h : count c₂ = count c₁) : Numbered c c₂ xs where
  count_eq := h ▸ hxs.count_eq
  ids_eq := hxs.ids_eq

/-- Two ranges that follow each other make one. -/
theorem append (hxs : Numbered c c₁ xs) (hys : Numbered c₁ c₂ ys) : Numbered c c₂ (xs ++ ys) where
  count_eq := by rw [hys.count_eq, hxs.count_eq, List.length_append, Nat.add_assoc]
  ids_eq := by
    have hys' := hys.ids_eq
    rw [hxs.count_eq] at hys'
    rw [List.length_append, ← List.range'_append_1, ← hxs.ids_eq, ← hys']

/-- A declaration takes its id after all ids inside it. -/
theorem own (hxs : Numbered c c₁ xs) (h : count c₂ = count c₁ + 1) :
    Numbered c c₂ (xs ++ [count c₁]) :=
  hxs.append ⟨h, rfl⟩

end Numbered

section Numbering

variable {α β : Type}

/-- The loader hands out the ids of the declarations in what it loads, and no others. -/
def Numbers (ds : α → List Decl) (m : Loader α) : Prop :=
  ∀ (c c' : Cursor) (a : α), m.run c = .ok (a, c') → Numbered c c' (idsOf (ds a))

namespace Numbers

theorem pure {ds : α → List Decl} {a : α} (h : ds a = []) :
    Numbers ds (Pure.pure a : Loader α) := by
  intro c c' b hrun
  cases hrun
  rw [h]
  exact .nothing rfl

theorem throw (ds : α → List Decl) (e : LoadError) : Numbers ds (throw e : Loader α) := by
  intro c c' b hrun
  cases hrun

theorem quiet_bind {ds : β → List Decl} {m : Loader α} {f : α → Loader β} (hm : Quiet m)
    (hf : ∀ a, Numbers ds (f a)) : Numbers ds (m >>= f) := by
  intro c c' b h
  obtain ⟨a, c₁, h₁, h₂⟩ := bind_ok h
  exact (hf a c₁ c' b h₂).before (hm c c₁ a h₁)

/-- Wrapping what was loaded keeps the declarations. -/
theorem map {ds : α → List Decl} {ds' : β → List Decl} {m : Loader α} {f : α → Loader β}
    (hm : Numbers ds m)
    (hf : ∀ a c c' b, (f a).run c = .ok (b, c') → ds' b = ds a ∧ count c' = count c) :
    Numbers ds' (m >>= f) := by
  intro c c' b h
  obtain ⟨a, c₁, h₁, h₂⟩ := bind_ok h
  obtain ⟨hds, hcount⟩ := hf a c₁ c' b h₂
  rw [hds]
  exact (hm c c₁ a h₁).after hcount

/-- The declarations of a list are those of its head, then those of its tail. -/
theorem cons {ds : α → List Decl} {all : List α → List Decl} {m : Loader α}
    {rest : Loader (List α)} (hall : ∀ a as, all (a :: as) = ds a ++ all as) (hm : Numbers ds m)
    (hrest : Numbers all rest) : Numbers all (do return (← m) :: (← rest)) := by
  intro c c' b h
  obtain ⟨a, c₁, h₁, h₂⟩ := bind_ok h
  obtain ⟨as, c₂, h₃, h₄⟩ := bind_ok h₂
  cases h₄
  rw [hall, idsOf_append]
  exact (hm c c₁ a h₁).append (hrest _ _ as h₃)

end Numbers

end Numbering

theorem numbers_function {node : Fields} {kind : String} {line : Nat}
    {body : Loader (Option (List Stmt))} (hbody : Numbers bodyDecls body) :
    Numbers FunctionDecl.decls (function node kind line body) := by
  unfold function
  refine Numbers.quiet_bind (quiet_text? _ _ _) fun name => ?_
  refine Numbers.quiet_bind (quiet_flag _ _ _) fun isAsync => ?_
  refine Numbers.quiet_bind (quiet_params _ _ _) fun params => ?_
  intro c c' f h
  obtain ⟨loaded, c₁, h₁, h₂⟩ := bind_ok h
  obtain ⟨_, c₂, h₃, h₄⟩ := bind_ok h₂
  cases h₃
  cases h₄
  rw [FunctionDecl.decls_eq, idsOf_append]
  exact (hbody _ _ loaded h₁).own rfl

theorem numbers_classDef {node : Fields} {kind : String} {line : Nat}
    {members : Loader (List Member)} (hmembers : Numbers memberDecls members) :
    Numbers ClassDecl.decls (classDef node kind line members) := by
  unfold classDef
  refine Numbers.quiet_bind (quiet_text? _ _ _) fun name => ?_
  refine Numbers.quiet_bind (quiet_text? _ _ _) fun parent => ?_
  refine Numbers.quiet_bind (quiet_flag _ _ _) fun isDeclared => ?_
  refine Numbers.quiet_bind (quiet_flag _ _ _) fun isAbstract => ?_
  intro c c' d h
  obtain ⟨loaded, c₁, h₁, h₂⟩ := bind_ok h
  obtain ⟨_, c₂, h₃, h₄⟩ := bind_ok h₂
  cases h₃
  cases h₄
  rw [ClassDecl.decls_eq, idsOf_append]
  exact (hmembers _ _ loaded h₁).own rfl

mutual

theorem numbers_stmt (inherited : Nat) : ∀ value, Numbers Stmt.decls (stmt inherited value)
  | .object node => by
    rw [stmt]
    refine Numbers.quiet_bind (quiet_enter node _ _) fun (kind, line) => ?_
    have hstmts := fun field => numbers_stmtsField kind field line node
    have hbody := numbers_bodyField kind line node
    have hmembers := numbers_membersField kind line node
    dsimp only
    split
    · refine Numbers.map (hstmts _) fun body c c' st h => ?_
      cases h
      exact ⟨rfl, rfl⟩
    · refine Numbers.quiet_bind (quiet_imports _ _ _) fun i c c' st h => ?_
      cases h
      exact .nothing rfl
    · refine Numbers.quiet_bind (quiet_items _ _ _) fun values => ?_
      refine Numbers.quiet_bind (Quiet.mapM (quiet_declarator _) values) fun ds c c' st h => ?_
      cases h
      exact .nothing rfl
    · refine Numbers.quiet_bind (quiet_exprField _ _ _ _) fun e c c' st h => ?_
      cases h
      exact .nothing rfl
    · refine Numbers.quiet_bind (quiet_exprField? _ _ _) fun e c c' st h => ?_
      cases h
      exact .nothing rfl
    · refine Numbers.map (numbers_function hbody) fun f c c' st h => ?_
      cases h
      exact ⟨rfl, rfl⟩
    · refine Numbers.map (numbers_classDef hmembers) fun d c c' st h => ?_
      cases h
      exact ⟨rfl, rfl⟩
    · intro c c' st h
      cases h
      exact .nothing rfl
    · intro c c' st h
      cases h
      exact .nothing rfl
    · intro c c' st h
      cases h
      exact .nothing rfl
    · intro c c' st h
      cases h
      exact .nothing rfl
  | .null | .bool _ | .number _ | .string _ | .array _ => Numbers.throw _ _

theorem numbers_stmtsField (kind field : String) (line : Nat) :
    ∀ node, Numbers decls (stmtsField kind field line node)
  | [] => Numbers.pure rfl
  | (name, value) :: rest => by
    have hrest := numbers_stmtsField kind field line rest
    rw [stmtsField.eq_def]
    dsimp only
    split
    · cases value with
      | array values => exact numbers_stmts line values
      | null => exact Numbers.pure rfl
      | _ => exact Numbers.quiet_bind (Quiet.lift fun _ => rfl) fun _ => Numbers.throw _ _
    · exact hrest

theorem numbers_stmts (line : Nat) : ∀ values, Numbers decls (stmts line values)
  | [] => Numbers.pure rfl
  | value :: rest => by
    have hvalue := numbers_stmt line value
    have hrest := numbers_stmts line rest
    rw [stmts]
    exact Numbers.cons (fun _ _ => rfl) hvalue hrest

theorem numbers_bodyField (kind : String) (line : Nat) :
    ∀ node, Numbers bodyDecls (bodyField kind line node)
  | [] => Numbers.pure rfl
  | (name, value) :: rest => by
    have hrest := numbers_bodyField kind line rest
    rw [bodyField.eq_def]
    dsimp only
    split
    · cases value with
      | array values =>
        refine Numbers.map (numbers_stmts line values) fun body c c' b h => ?_
        cases h
        exact ⟨rfl, rfl⟩
      | null => exact Numbers.pure rfl
      | _ => exact Numbers.quiet_bind (Quiet.lift fun _ => rfl) fun _ => Numbers.throw _ _
    · exact hrest

theorem numbers_membersField (kind : String) (line : Nat) :
    ∀ node, Numbers memberDecls (membersField kind line node)
  | [] => Numbers.pure rfl
  | (name, value) :: rest => by
    have hrest := numbers_membersField kind line rest
    rw [membersField.eq_def]
    dsimp only
    split
    · cases value with
      | array values => exact numbers_members line values
      | null => exact Numbers.pure rfl
      | _ => exact Numbers.quiet_bind (Quiet.lift fun _ => rfl) fun _ => Numbers.throw _ _
    · exact hrest

theorem numbers_members (line : Nat) : ∀ values, Numbers memberDecls (members line values)
  | [] => Numbers.pure rfl
  | value :: rest => by
    have hvalue := numbers_member line value
    have hrest := numbers_members line rest
    rw [members]
    exact Numbers.cons (fun _ _ => rfl) hvalue hrest

theorem numbers_member (inherited : Nat) : ∀ value, Numbers Member.decls (member inherited value)
  | .object node => by
    rw [member]
    refine Numbers.quiet_bind (quiet_enter node _ _) fun (kind, line) => ?_
    have hstmts := fun field => numbers_stmtsField kind field line node
    have hbody := numbers_bodyField kind line node
    dsimp only
    split
    · refine Numbers.quiet_bind (quiet_flag _ _ _) fun isStatic => ?_
      refine Numbers.quiet_bind (quiet_text _ _ _) fun _ => ?_
      refine Numbers.map (numbers_function hbody) fun f c c' m h => ?_
      cases h
      exact ⟨rfl, rfl⟩
    · refine Numbers.quiet_bind (quiet_params _ _ _) fun params c c' m h => ?_
      obtain ⟨body, c₁, h₁, h₂⟩ := bind_ok h
      obtain ⟨_, c₂, h₃, h₄⟩ := bind_ok h₂
      cases h₃
      cases h₄
      rw [Member.decls, FunctionDecl.decls_eq, idsOf_append]
      exact (hstmts _ c c₁ body h₁).own rfl
    · refine Numbers.quiet_bind (quiet_text _ _ _) fun name => ?_
      refine Numbers.quiet_bind (quiet_flag _ _ _) fun isStatic => ?_
      refine Numbers.quiet_bind (quiet_exprField? _ _ _) fun initializer c c' m h => ?_
      cases h
      exact .nothing rfl
    · intro c c' m h
      cases h
      exact .nothing rfl
  | .null | .bool _ | .number _ | .string _ | .array _ => Numbers.throw _ _

end

/-- A loaded unit is made of the statements of its document; its count is where the loader stands
in the end. -/
theorem load_statements {document : Value} {fallback : String} {u : CompilationUnit}
    (h : load document fallback = .ok u) : ∃ fields c,
      (stmtsField "document" "statements" 0 fields).run {} = .ok (u.statements, c) ∧
      u.declCount = count c := by
  cases document with
  | object fields =>
    rw [load] at h
    cases hfile : fileField fields fallback with
    | error e =>
      rw [hfile] at h
      cases h
    | ok file =>
      rw [hfile] at h
      cases hrun : (stmtsField "document" "statements" 0 fields).run {} with
      | error e =>
        simp only [hrun, bind, Except.bind] at h
        cases h
      | ok loaded =>
        simp only [hrun, bind, Except.bind, pure, Except.pure, Except.ok.injEq] at h
        subst h
        exact ⟨fields, loaded.2, hrun, rfl⟩
  | _ => cases h

/-- In the order in which they end, the declarations of a loaded unit are counted from zero. -/
theorem load_idsOf {document : Value} {fallback : String} {u : CompilationUnit}
    (h : load document fallback = .ok u) : idsOf (decls u.statements) = List.range u.declCount := by
  obtain ⟨fields, c, hrun, hcount⟩ := load_statements h
  have hnumbered := numbers_stmtsField _ _ _ fields {} c u.statements hrun
  have hlength : u.declCount = (idsOf (decls u.statements)).length := by
    rw [hcount, hnumbered.count_eq]
    exact Nat.zero_add _
  rw [hlength, List.range_eq_range']
  exact hnumbered.ids_eq

/-- **The declarations of a loaded unit have ids of their own.** -/
theorem load_nodup {document : Value} {fallback : String} {u : CompilationUnit}
    (h : load document fallback = .ok u) : (declIds u.statements).Nodup := by
  rw [(declIds_perm u.statements).nodup_iff, load_idsOf h]
  exact List.nodup_range

/-- **The ids of a loaded unit are a dense numbering.**  The functions, methods, constructors and
classes anywhere in the unit are numbered from zero up to its count, each once, and a declaration has
a greater id than every declaration nested inside it. -/
theorem load_numbers {document : Value} {fallback : String} {u : CompilationUnit}
    (h : load document fallback = .ok u) :
    ((decls u.statements).map Decl.id).Nodup ∧
    (∀ i : Nat, i ∈ (decls u.statements).map Decl.id ↔ i < u.declCount) ∧
    ∀ d ∈ decls u.statements, ∀ e ∈ d.inner, e.id < d.id := by
  have hids : (decls u.statements).map Decl.id = List.range u.declCount := load_idsOf h
  refine ⟨hids ▸ List.nodup_range, fun i => by rw [hids, List.mem_range], fun d hd e he => ?_⟩
  -- what is inside a declaration stands before it in an increasing list
  have hinfix := (nested_stmts u.statements d hd).map Decl.id
  rw [hids, List.map_append] at hinfix
  have hsorted := List.pairwise_lt_range.sublist hinfix.sublist
  exact (List.pairwise_append.mp hsorted).2.2 e.id (List.mem_map_of_mem he) d.id List.mem_cons_self

/-- `function f() { class C { constructor() {} m() { { function g() {} } } } }` and
`declare function h();` -/
def nestedDocument : Value :=
  .object [("statements", .array [
    .object [("kind", .string "FunctionDeclaration"), ("name", .string "f"), ("body", .array [
      .object [("kind", .string "ClassDeclaration"), ("name", .string "C"), ("members", .array [
        .object [("kind", .string "Constructor")],
        .object [("kind", .string "MethodDeclaration"), ("name", .string "m"), ("body", .array [
          .object [("kind", .string "Block"), ("statements", .array [
            .object [("kind", .string "FunctionDeclaration"), ("name", .string "g"),
              ("body", .array [])]])]])]])]])],
    .object [("kind", .string "FunctionDeclaration"), ("name", .string "h")]])]

/-- The unit of that document. -/
def nestedUnit : CompilationUnit where
  fileName := "main.ts"
  context := "main"
  statements := [
    .function ⟨4, some "f", [], some [
      .classDef ⟨3, some "C", none, false, false, [
        .constructor ⟨0, some "constructor", [], some [], false, 0⟩,
        .method ⟨2, some "m", [], some [
          .block 0 [.function ⟨1, some "g", [], some [], false, 0⟩]], false, 0⟩ false], 0⟩],
      false, 0⟩,
    .function ⟨5, some "h", [], none, false, 0⟩]
  declCount := 6

theorem load_numbers_nested :
    load nestedDocument "main.ts" = .ok nestedUnit ∧
    (decls nestedUnit.statements).map (fun d => (d.id, idsOf d.inner)) =
      [(0, []), (1, []), (2, [1]), (3, [0, 1, 2]), (4, [0, 1, 2, 3]), (5, [])] ∧
    ((decls nestedUnit.statements).map Decl.id).Nodup ∧
    (∀ i : Nat, i ∈ (decls nestedUnit.statements).map Decl.id ↔ i < nestedUnit.declCount) ∧
    ∀ d ∈ decls nestedUnit.statements, ∀ e ∈ d.inner, e.id < d.id :=
  have hload : load nestedDocument "main.ts" = .ok nestedUnit := rfl
  ⟨hload, rfl, load_numbers hload⟩

end Document

end FrameScript
