/-
  The names that are written in a unit.

  Paths and slots are texts made from names, so what a path can look like depends on how the names
  are spelled.  The file collects the names of expressions, statements and declarations, and shows
  that a piece of work contains no name but those of its parts.

  Static types are no names: they are looked up, and no path is made from them.
-/
import FrameScript.Proofs.Tables

namespace FrameScript

open Source

/-! ## Names in the source -/

mutual

/-- The names in an expression. -/
def Source.Expr.names : Expr → List String
  | .identifier _ name => [name]
  | .binary _ left _ right => left.names ++ right.names
  | .unary _ _ _ operand => operand.names
  | .call _ callee arguments => callee.names ++ exprNames arguments
  | .construct _ callee arguments => callee.names ++ exprNames arguments
  | .member _ object name => name :: object.names
  | .await _ operand => operand.names
  | .wrapped _ inner => inner.names
  | .number .. | .boolean .. | .null _ | .this _ | .super _ | .unsupported .. => []

/-- The names in some expressions. -/
def Source.exprNames : List Expr → List String
  | [] => []
  | e :: rest => e.names ++ exprNames rest

end

/-- The names in an expression that may be missing. -/
def Source.initializerNames (e : Option Expr) : List String := e.toList.flatMap Expr.names

def Source.Binding.names : Binding → List String
  | .identifier name => [name]
  | .pattern => []

def Source.Declarator.names (d : Declarator) : List String :=
  d.binding.names ++ initializerNames d.initializer

def Source.Import.names (i : Import) : List String :=
  i.default.toList ++ i.namespaceName.toList ++ i.named.flatMap fun n => [n.name, n.bound]

mutual

/-- The names in a statement. -/
def Source.Stmt.names : Stmt → List String
  | .block _ body => stmtNames body
  | .imports _ i => i.names
  | .bindings _ ds => ds.flatMap Declarator.names
  | .expression _ e => e.names
  | .function f => f.names
  | .classDef c => c.names
  | .returning _ value => initializerNames value
  | .typeOnly _ | .empty _ | .other .. => []

/-- The names in some statements. -/
def Source.stmtNames : List Stmt → List String
  | [] => []
  | st :: rest => st.names ++ stmtNames rest

/-- The names in a function, method or constructor. -/
def Source.FunctionDecl.names : FunctionDecl → List String
  | ⟨_, name, params, some body, _, _⟩ =>
    name.toList ++ params.flatMap (·.binding.names) ++ stmtNames body
  | ⟨_, name, params, none, _, _⟩ => name.toList ++ params.flatMap (·.binding.names)

/-- The names in a class. -/
def Source.ClassDecl.names : ClassDecl → List String
  | ⟨_, name, parent, _, _, members, _⟩ => name.toList ++ parent.toList ++ memberNames members

/-- The names in a member of a class. -/
def Source.Member.names : Member → List String
  | .method f _ => f.names
  | .constructor f => f.names
  | .property p => p.name :: initializerNames p.initializer
  | .other .. => []

/-- The names in some members of a class. -/
def Source.memberNames : List Member → List String
  | [] => []
  | m :: rest => m.names ++ memberNames rest

end

theorem Source.FunctionDecl.names_of_body {f : FunctionDecl} {body : List Stmt}
    (h : f.body = some body) :
    f.names = f.name.toList ++ f.params.flatMap (·.binding.names) ++ stmtNames body := by
  obtain ⟨id, name, params, body', isAsync, line⟩ := f
  cases h
  rfl

theorem Source.FunctionDecl.names_subset (f : FunctionDecl) :
    f.name.toList ++ f.params.flatMap (·.binding.names) ⊆ f.names := by
  obtain ⟨id, name, params, body, isAsync, line⟩ := f
  cases body with
  | none => exact List.Subset.refl _
  | some body => exact List.subset_append_left _ _

theorem Source.ClassDecl.names_eq (c : ClassDecl) :
    c.names = c.name.toList ++ c.parent.toList ++ memberNames c.members := by
  obtain ⟨id, name, parent, isDeclared, isAbstract, members, line⟩ := c
  rfl

theorem Source.Expr.names_unwrapped (e : Expr) : e.unwrapped.names = e.names := by
  fun_induction Expr.unwrapped e with
  | case1 m inner ih =>
    rw [ih, Expr.names]
  | case2 e h => rfl

theorem Source.names_subset_exprNames {args : List Expr} {a : Expr} (ha : a ∈ args) :
    a.names ⊆ exprNames args := by
  induction args with
  | nil => exact absurd ha List.not_mem_nil
  | cons first rest ih =>
    rw [exprNames]
    rcases List.mem_cons.mp ha with rfl | ha
    · exact List.subset_append_left _ _
    · exact List.Subset.trans (ih ha) (List.subset_append_right _ _)

theorem Source.mem_memberNames {ms : List Member} {m : Member} (hm : m ∈ ms) :
    m.names ⊆ memberNames ms := by
  induction ms with
  | nil => exact absurd hm List.not_mem_nil
  | cons first rest ih =>
    rw [memberNames]
    rcases List.mem_cons.mp hm with rfl | hm
    · exact List.subset_append_left _ _
    · exact List.Subset.trans (ih hm) (List.subset_append_right _ _)

/-! ## Names in a piece of work -/

/-- The name of the class that the class around some code extends. -/
def ClassScope.names (scope : ClassScope) : List String := scope.parent.toList

/-- The names in a piece of work, with that of the extended class around it. -/
def Task.names : Task → List String
  | .stmts body => stmtNames body
  | .stmt st => st.names
  | .declarators ds => ds.flatMap Declarator.names
  | .declarator d => d.names
  | .callable _ _ enclosing _ body => enclosing.toList.flatMap ClassScope.names ++ stmtNames body
  | .members _ scope ms _ | .fieldsScript _ scope ms _ | .bodies _ scope ms _
  | .initializer _ scope ms _ | .methods _ scope ms => scope.names ++ memberNames ms
  | .fields _ ms => memberNames ms
  | .field _ m => m.names
  | .method _ scope m => scope.names ++ m.names

theorem Task.split_names {task first rest : Task} (h : task.split = some (first, rest)) :
    first.names ⊆ task.names ∧ rest.names ⊆ task.names := by
  cases Task.splits h with
  | members => exact ⟨List.Subset.refl _, List.Subset.refl _⟩
  | bodies => exact ⟨List.Subset.refl _, List.Subset.refl _⟩
  | methods info scope m others =>
    have hscope : scope.names ⊆ scope.names ++ (m.names ++ memberNames others) :=
      List.subset_append_left _ _
    constructor
    · refine List.append_subset.mpr ⟨hscope, List.subset_append_of_subset_right _ ?_⟩
      exact List.subset_append_left _ _
    · refine List.append_subset.mpr ⟨hscope, List.subset_append_of_subset_right _ ?_⟩
      exact List.subset_append_right _ _
  | _ => exact ⟨List.subset_append_left _ _, List.subset_append_right _ _⟩

theorem Task.inside_names {task inner : Task} (h : task.inside = some inner) :
    inner.names = task.names := by
  cases Task.encloses h <;> rfl

/-- The body of the known constructor is that of a member. -/
theorem knownConstructor_names {info : ClassInfo} {ms : List Member} {id : DeclId} {line : Nat}
    {body : List Stmt} (h : knownConstructor info ms = some (id, line, body)) :
    stmtNames body ⊆ memberNames ms := by
  obtain ⟨f, hf, -, hbody⟩ := knownConstructor_mem h
  refine List.Subset.trans ?_ (mem_memberNames hf)
  rw [Member.names, FunctionDecl.names_of_body hbody]
  exact List.subset_append_right _ _

/-- The names in the body of a function are its own, or stand around it. -/
theorem Task.function_names {f : FunctionDecl} {body : List Stmt} (h : f.body = some body) {line : Nat}
    {enclosing : Option ClassScope} {prologue : List Command} {n : String}
    (hn : n ∈ (Task.callable f.id line enclosing prologue body).names) :
    (∃ c, enclosing = some c ∧ n ∈ c.names) ∨ n ∈ (Task.stmt (.function f)).names := by
  rcases List.mem_append.mp hn with hn | hn
  · obtain ⟨c, hc, hn⟩ := List.mem_flatMap.mp hn
    exact .inl ⟨c, Option.mem_toList.mp hc, hn⟩
  · refine .inr ?_
    rw [Task.names, Stmt.names, FunctionDecl.names_of_body h]
    exact List.mem_append_right _ hn

theorem Task.method_names {f : FunctionDecl} {body : List Stmt} (h : f.body = some body)
    (info : ClassInfo) (scope : ClassScope) (isStatic : Bool) (line : Nat) (prologue : List Command) :
    (Task.callable f.id line (some scope) prologue body).names ⊆
      (Task.method info scope (.method f isStatic)).names := by
  intro n hn
  rw [Task.names, Member.names, FunctionDecl.names_of_body h]
  rcases List.mem_append.mp hn with hn | hn
  · exact List.mem_append_left _ (by simpa using hn)
  · exact List.mem_append_right _ (List.mem_append_right _ hn)

theorem Task.class_names (c : ClassDecl) (info : ClassInfo) (line : Nat) :
    (Task.members info ⟨info.name, c.parent⟩ c.members line).names ⊆ (Task.stmt (.classDef c)).names := by
  intro n hn
  rw [Task.names, Stmt.names, c.names_eq]
  rcases List.mem_append.mp hn with hn | hn
  · exact List.mem_append_left _ (List.mem_append_right _ hn)
  · exact List.mem_append_right _ hn

theorem Task.constructor_names {info : ClassInfo} {ms : List Member} {id : DeclId} {bodyLine : Nat}
    {body : List Stmt} (h : knownConstructor info ms = some (id, bodyLine, body)) (scope : ClassScope)
    (line : Nat) (prologue : List Command) :
    (Task.callable id bodyLine (some scope) prologue body).names ⊆
      (Task.initializer info scope ms line).names := by
  intro n hn
  rcases List.mem_append.mp hn with hn | hn
  · exact List.mem_append_left _ (by simpa using hn)
  · exact List.mem_append_right _ (knownConstructor_names h hn)

/-- The names in a script of its own, and the class that is extended around it. -/
theorem Opens.names_subset {task : Task} {s : Session} {script : Script} (h : Opens task s script) :
    (∀ c, script.scope.enclosing = some c → c.names ⊆ task.names) ∧ script.body.names ⊆ task.names := by
  cases h with
  | callable _ line enclosing prologue body =>
    refine ⟨fun c hc n hn => List.mem_append_left _ ?_, List.subset_append_right _ _⟩
    exact List.mem_flatMap.mpr ⟨c, Option.mem_toList.mpr hc, hn⟩
  | fields info scope ms line =>
    refine ⟨fun c hc n hn => List.mem_append_left _ ?_, List.subset_append_right _ _⟩
    exact Option.some.inj hc ▸ hn

/-- The names in an evaluated expression are names of the work, as is that of a new variable. -/
theorem Evaluation.names_subset {task : Task} {s t : Session} {use : Use} {e : Expr} {flow : Flow}
    (h : Evaluation task s t use e flow) : e.names ⊆ task.names := by
  cases h with
  | @initializer d name e hname he =>
    rw [Task.names, Declarator.names, he]
    exact List.Subset.trans (List.subset_append_left _ _) (List.subset_append_right _ _)
  | expression line e =>
    rw [e.names_unwrapped]
    exact List.Subset.refl _
  | returned line e _ => exact List.subset_append_left _ _
  | discarded line e _ => exact List.subset_append_left _ _
  | @field info p e slot he _ =>
    rw [Task.names, Member.names, he]
    exact List.Subset.trans (List.subset_append_left _ _) (List.subset_cons_self _ _)

end FrameScript
