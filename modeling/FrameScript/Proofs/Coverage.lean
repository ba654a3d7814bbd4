/-
  A compilation without warnings covers the source.

  Lowering leaves out what it does not support and what it does not reach, and says so in a warning
  each time.  So if there is no warning at all, nothing was left out: every list of statements of the
  unit, at any depth, was lowered to its end (`Source.Covered`).

  Two things are never looked at, and no warning tells: what stands inside a class that is declared
  elsewhere or abstract, and all constructors of a class but the last.  The first is left out of the
  lists of a unit (`lists`), which also means that an `async` method of an abstract class may go
  unnoticed; of the second there must be none.

  Since warnings only grow, no part of a run gives one if the whole does not; `Runs.covers` is then by
  induction on the run.
-/
import FrameScript.Proofs.Recorded

namespace FrameScript

open Source

/-! ## Statement lists -/

mutual

/-- The lists inside a statement. -/
def Source.Stmt.lists : Stmt → List (List Stmt)
  | .block _ body => body :: innerLists body
  | .function f => f.lists
  | .classDef c => c.lists
  | _ => []

/-- The lists inside some statements. -/
def Source.innerLists : List Stmt → List (List Stmt)
  | [] => []
  | st :: rest => st.lists ++ innerLists rest

def Source.FunctionDecl.lists : FunctionDecl → List (List Stmt)
  | ⟨_, _, _, some body, _, _⟩ => body :: innerLists body
  | ⟨_, _, _, none, _, _⟩ => []

/-- The lists inside a class, unless it is declared elsewhere or abstract. -/
def Source.ClassDecl.lists : ClassDecl → List (List Stmt)
  | ⟨_, _, _, isDeclared, isAbstract, members, _⟩ =>
    if isDeclared || isAbstract then [] else memberLists members

def Source.Member.lists : Member → List (List Stmt)
  | .method f _ => f.lists
  | .constructor f => f.lists
  | .property _ | .other .. => []

def Source.memberLists : List Member → List (List Stmt)
  | [] => []
  | m :: rest => m.lists ++ memberLists rest

end

/-- All lists of statements in a unit, its own first. -/
def Source.lists (body : List Stmt) : List (List Stmt) := body :: innerLists body

theorem Source.FunctionDecl.lists_of_body {f : FunctionDecl} {body : List Stmt}
    (h : f.body = some body) : f.lists = Source.lists body := by
  obtain ⟨id, name, params, body', isAsync, line⟩ := f
  cases h
  rfl

theorem Source.FunctionDecl.lists_of_none {f : FunctionDecl} (h : f.body = none) : f.lists = [] := by
  obtain ⟨id, name, params, body', isAsync, line⟩ := f
  cases h
  rfl

theorem Source.ClassDecl.lists_eq (c : ClassDecl) :
    c.lists = if c.isDeclared || c.isAbstract then [] else memberLists c.members := by
  obtain ⟨id, name, parent, isDeclared, isAbstract, members, line⟩ := c
  rfl

/-! ## What is covered -/

/-- A function or method that is lowered as it stands. -/
def Source.FunctionDecl.Plain (f : FunctionDecl) : Prop := f.body ≠ none → f.isAsync = false

/-- A member that is lowered as it stands. -/
def Source.Member.Plain : Member → Prop
  | .method f _ => f.Plain
  | .other .. => False
  | .constructor _ | .property _ => True

/-- A statement that is lowered as it stands, apart from what is inside its bodies. -/
def Source.Stmt.Plain : Stmt → Prop
  | .function f => f.Plain
  | .classDef c => (c.isDeclared || c.isAbstract) = false → ∀ m ∈ c.members, m.Plain
  | .other .. => False
  | _ => True

/-- No statement of the list is lost: all are lowered as they stand, and none stands behind one that
returns. -/
structure Source.Covered (body : List Stmt) : Prop where
  plain : ∀ st ∈ body, st.Plain
  reached : skipped body = []

/-! ## Constructors -/

/-- The lists inside the last constructor. -/
def Source.constructorLists (ms : List Member) : List (List Stmt) :=
  ((lastConstructor ms).map fun x => lists x.2.2).getD []

/-- The lists inside a method. -/
def Source.Member.methodLists : Member → List (List Stmt)
  | .method f _ => f.lists
  | _ => []

/-- If there is no other constructor, it is the last one. -/
theorem lastConstructor_of_single {ms : List Member} (hsingle : ms.countP Member.isConstructor ≤ 1)
    {f : FunctionDecl} {body : List Stmt} (hf : .constructor f ∈ ms) (hbody : f.body = some body) :
    ∃ x, lastConstructor ms = some x ∧ x.2.2 = body := by
  fun_induction lastConstructor ms with
  | case1 => exact absurd hf List.not_mem_nil
  | case2 id name params body' isAsync line rest ih =>
    rw [List.countP_cons] at hsingle
    rcases List.mem_cons.mp hf with heq | hf
    · cases heq
      obtain rfl : body' = some body := hbody
      have hnone : rest.countP Member.isConstructor = 0 := by
        have hhead : (Member.constructor ⟨id, name, params, some body, isAsync, line⟩).isConstructor =
          true := rfl
        rw [if_pos hhead] at hsingle
        omega
      have hlast : lastConstructor rest = none := by
        rw [← Option.isNone_iff_eq_none, ← Option.not_isSome, lastConstructor_isSome,
          Bool.not_eq_true', List.any_eq_false]
        exact List.countP_eq_zero.mp hnone
      rw [hlast]
      exact ⟨_, rfl, rfl⟩
    · obtain ⟨x, hx, hbody⟩ := ih (by omega) hf
      rw [hx]
      exact ⟨x, rfl, hbody⟩
  | case3 m rest hm ih =>
    rw [List.countP_cons] at hsingle
    rcases List.mem_cons.mp hf with heq | hf
    · obtain ⟨id, name, params, body', isAsync, line⟩ := f
      exact (hm id name params body' isAsync line heq.symm).elim
    · exact ih (by omega) hf

theorem Source.mem_memberLists {ms : List Member} {body : List Stmt} (h : body ∈ memberLists ms) :
    ∃ m ∈ ms, body ∈ m.lists := by
  induction ms with
  | nil => exact absurd h List.not_mem_nil
  | cons first rest ih =>
    rcases List.mem_append.mp h with h | h
    · exact ⟨first, List.mem_cons_self, h⟩
    · obtain ⟨m, hm, hin⟩ := ih h
      exact ⟨m, List.mem_cons_of_mem _ hm, hin⟩

/-- What is inside a class with one constructor is inside that one or inside a method. -/
theorem Source.memberLists_subset {ms : List Member} (hsingle : ms.countP Member.isConstructor ≤ 1) :
    memberLists ms ⊆ constructorLists ms ++ ms.flatMap Member.methodLists := by
  intro body hin
  obtain ⟨m, hm, hin⟩ := mem_memberLists hin
  cases m with
  | method f isStatic =>
    exact List.mem_append_right _ (List.mem_flatMap.mpr ⟨_, hm, hin⟩)
  | constructor f =>
    refine List.mem_append_left _ ?_
    have hin' : body ∈ f.lists := hin
    cases hbody : f.body with
    | none =>
      rw [f.lists_of_none hbody] at hin'
      exact absurd hin' List.not_mem_nil
    | some inner =>
      obtain ⟨x, hx, rfl⟩ := lastConstructor_of_single hsingle hm hbody
      rw [constructorLists, hx]
      rw [f.lists_of_body hbody] at hin'
      exact hin'
  | _ => exact absurd hin List.not_mem_nil

/-! ## Work that loses nothing -/

/-- The lists inside a piece of work. -/
def Task.lists : Task → List (List Stmt)
  | .stmts body => innerLists body
  | .stmt st => st.lists
  | .callable _ _ _ _ body => Source.lists body
  | .members _ _ ms _ | .bodies _ _ ms _ => constructorLists ms ++ ms.flatMap Member.methodLists
  | .initializer _ _ ms _ => constructorLists ms
  | .methods _ _ ms => ms.flatMap Member.methodLists
  | .method _ _ m => m.methodLists
  | .declarators _ | .declarator _ | .fieldsScript .. | .fields .. | .field .. => []

/-- The work itself, apart from the lists inside it. -/
def Task.Plain : Task → Prop
  | .stmts body => Source.Covered body
  | .stmt st => st.Plain
  | .members _ _ ms _ | .bodies _ _ ms _ | .methods _ _ ms => ∀ m ∈ ms, m.Plain
  | .method _ _ m => m.Plain
  | _ => True

/-- The work returns a value. -/
def Task.returnsValue : Task → Bool
  | .stmts body => bodyReturnsValue body
  | .stmt st => st.returnsValue
  | _ => false

/-- Nothing in the work is lost, and outside of a callable no value is returned. -/
structure Task.Covered (task : Task) (s : Session) : Prop where
  plain : task.Plain
  lists : ∀ body ∈ task.lists, Source.Covered body
  values : s.scope.owner = none → task.returnsValue = false

theorem Task.Covered.seq {task first rest : Task} {s t : Session}
    (hsplit : task.split = some (first, rest)) (hnext : first.returns = false)
    (hscope : t.scope = s.scope) (hfirst : first.Covered s) (hrest : rest.Covered t) : task.Covered s := by
  obtain ⟨hplain, hlists, hvalues⟩ := hfirst
  obtain ⟨hplain', hlists', hvalues'⟩ := hrest
  rw [hscope] at hvalues'
  have hboth := List.forall_mem_append.mpr ⟨hlists, hlists'⟩
  cases Task.splits hsplit with
  | stmts st others =>
    have hst : st.returns = false := hnext
    refine ⟨⟨List.forall_mem_cons.mpr ⟨hplain, hplain'.plain⟩, ?_⟩, hboth, fun howner => ?_⟩
    · rw [skipped, hst]
      exact hplain'.reached
    · show (st.returnsValue || bodyReturnsValue others) = false
      rw [show st.returnsValue = false from hvalues howner]
      exact hvalues' howner
  | declarators => exact ⟨trivial, hboth, fun _ => rfl⟩
  | members => exact ⟨hplain', hboth, fun _ => rfl⟩
  | bodies => exact ⟨hplain', hboth, fun _ => rfl⟩
  | fields => exact ⟨trivial, hboth, fun _ => rfl⟩
  | methods => exact ⟨List.forall_mem_cons.mpr ⟨hplain, hplain'⟩, hboth, fun _ => rfl⟩

/-- Statements are inside what consists of them. -/
theorem Task.Covered.inside {task inner : Task} {s : Session} (hinside : task.inside = some inner)
    (h : inner.Covered s) : task.Covered s := by
  cases Task.encloses hinside with
  | block line body => exact ⟨trivial, List.forall_mem_cons.mpr ⟨h.plain, h.lists⟩, h.values⟩
  | bindings line ds => exact ⟨trivial, h.lists, fun _ => rfl⟩

theorem Session.warned_ne_nil (s : Session) (line : Nat) (message : String) :
    (s.warned line message).warnings ≠ [] :=
  List.append_ne_nil_of_right_ne_nil _ (List.cons_ne_nil _ _)

/-- If nothing is said, there was nothing to say. -/
theorem Session.warnedIf_eq_nil {s : Session} {condition : Bool} {line : Nat} {message : String}
    (h : (s.warnedIf condition line message).warnings = []) : condition = false := by
  cases condition with
  | true => exact absurd h (s.warned_ne_nil line message)
  | false => rfl

/-- Warnings stay, so before no warning there is none. -/
theorem Session.warnings_eq_nil {s t : Session} (h : s.warnings <+: t.warnings) (ht : t.warnings = []) :
    s.warnings = [] := List.prefix_nil.mp (ht ▸ h)

/-- Where nothing is inside there is nothing to cover. -/
theorem Task.Covered.of_empty {task : Task} {s : Session} (hplain : task.Plain) (hlists : task.lists = [])
    (hvalues : s.scope.owner = none → task.returnsValue = false) : task.Covered s :=
  ⟨hplain, fun _ hin => absurd (hlists ▸ hin) List.not_mem_nil, hvalues⟩

theorem Idle.covers {classes : List ClassDecl} {task : Task} {s t : Session} {flow : Flow}
    (h : Idle task s flow t) (hrecorded : task.Recorded classes s.decls) (hclean : t.warnings = []) :
    task.Covered s := by
  cases h with
  | noStmts => exact .of_empty ⟨fun _ hst => absurd hst List.not_mem_nil, rfl⟩ rfl fun _ => rfl
  | noMethods => exact .of_empty (fun _ hm => absurd hm List.not_mem_nil) rfl fun _ => rfl
  | other line kind => exact absurd hclean (s.warned_ne_nil _ _)
  | @signature f hbody =>
    exact .of_empty (fun hsome => absurd hbody hsome) (f.lists_of_none hbody) fun _ => rfl
  | @foreign c hforeign =>
    -- nothing in a class that is declared elsewhere has to be covered
    refine .of_empty (fun hown => ?_) ?_ fun _ => rfl
    · rw [hforeign] at hown
      cases hown
    · rw [Task.lists, Stmt.lists, c.lists_eq, if_pos hforeign]
  | taken hnone hcontains => exact absurd hnone (hrecorded.class_ne_none hcontains)
  | unknown hnone => exact absurd hnone hrecorded.callable_ne_none
  | method info scope m hbody _ hkind =>
    cases m with
    | method f isStatic =>
      have hnone := hbody f isStatic rfl
      exact .of_empty (fun hsome => absurd hnone hsome) (f.lists_of_none hnone) fun _ => rfl
    | other line kind => exact absurd rfl (hkind line kind)
    | _ => exact .of_empty trivial rfl fun _ => rfl
  | otherMember => exact absurd hclean (s.warned_ne_nil _ _)
  | _ => exact .of_empty trivial rfl fun _ => rfl

/-- An expression has no statements in it; a value that is returned goes to a callable. -/
theorem Evaluation.covers {task : Task} {s t : Session} {use : Use} {e : Expr} {flow : Flow}
    (h : Evaluation task s t use e flow) (hclean : t.warnings = []) : task.Covered s := by
  cases h with
  | returned line e hslot =>
    refine .of_empty trivial rfl fun howner => ?_
    rw [Surroundings.callable?, howner] at hslot
    cases hslot
  | discarded line e _ => exact absurd hclean (s.warned_ne_nil _ _)
  | _ => exact .of_empty trivial rfl fun _ => rfl

/-- The lists in a callable are its body and those inside. -/
theorem Task.Covered.script {task : Task} {s s' : Session} {script : Script} (hopens : Opens task s script)
    (h : script.body.Covered s') : task.Covered s := by
  cases hopens with
  | callable => exact ⟨trivial, List.forall_mem_cons.mpr ⟨h.plain, h.lists⟩, fun _ => rfl⟩
  | fields => exact ⟨trivial, h.lists, fun _ => rfl⟩

/-- **Work that gives no warning loses nothing**, if no class has two constructors. -/
theorem Runs.covers {classes : List ClassDecl} (hnamed : Document.AllNamed classes)
    (hsingle : ∀ c ∈ classes, c.members.countP Member.isConstructor ≤ 1) {task : Task}
    {s t : Session} {log : List Event} {out : Emitted Flow} (h : Runs task s log out t)
    (hrecorded : task.Recorded classes s.decls) (hclean : t.warnings = []) : task.Covered s := by
  induction h with
  | idle h => exact h.covers hrecorded hclean
  | seq hsplit hfirst hrest ihfirst ihrest =>
    have hbefore := Session.warnings_eq_nil hrest.grows.warnings hclean
    exact .seq hsplit hfirst.goes_on hfirst.place_eq.2 (ihfirst (hrecorded.first hsplit) hbefore)
      (ihrest (hrecorded.rest hsplit hfirst) hclean)
  | @returned st s t log commands rest hfirst ih =>
    cases rest with
    | nil =>
      obtain ⟨hplain, hlists, hvalues⟩ := ih (hrecorded.first rfl) hclean
      have hskipped : skipped [st] = [] := by rw [skipped, skipped, ite_self]
      refine ⟨⟨List.forall_mem_singleton.mpr hplain, hskipped⟩, ?_, fun howner => ?_⟩
      · rw [Task.lists, innerLists, innerLists, List.append_nil]
        exact hlists
      · show (st.returnsValue || false) = false
        rw [Bool.or_false]
        exact hvalues howner
    | cons next others => exact absurd hclean (t.warned_ne_nil _ _)
  | inside hinside _ ih => exact .inside hinside (ih (hrecorded.inside hinside) hclean)
  | declares _ _ s => exact .of_empty trivial rfl fun _ => rfl
  | evaluates htask he => exact htask.covers (List.prefix_nil.mp (hclean ▸ he.extends.warnings))
  | @function f body s t u log out hbody hdeclared hrun ih =>
    rw [t.warnedIf_decls] at ih
    have hasync := Session.warnedIf_eq_nil (Session.warnings_eq_nil hrun.grows.warnings hclean)
    have hinner := ih (hrecorded.function hbody hdeclared _ _ _) hclean
    refine ⟨fun _ => hasync, ?_, fun _ => rfl⟩
    rw [Task.lists, Stmt.lists, f.lists_of_body hbody]
    exact hinner.lists
  | @method info scope f isStatic body s t log out hbody hrun ih =>
    rw [s.warnedIf_decls] at ih
    have hasync := Session.warnedIf_eq_nil (Session.warnings_eq_nil hrun.grows.warnings hclean)
    have hinner := ih (hrecorded.method hbody _ _ _) hclean
    refine ⟨fun _ => hasync, ?_, fun _ => rfl⟩
    rw [Task.lists, Member.methodLists, f.lists_of_body hbody]
    exact hinner.lists
  | @classDef c info s t u log out hown hdeclared hinfo _ ih =>
    have hmembers := ih (hrecorded.classDef hnamed hdeclared hinfo _ _) hclean
    refine ⟨fun _ => hmembers.plain, fun body hin => ?_, fun _ => rfl⟩
    rw [Task.lists, Stmt.lists, c.lists_eq, hown] at hin
    exact hmembers.lists body
      (memberLists_subset (hsingle c (hrecorded.classes (mem_classes c))) hin)
  | @script task s t script log out hopens _ ih =>
    have hbefore : (s.closed t).warnings = [] :=
      Session.warnings_eq_nil (Retains.stored _ _ _ _).warnings hclean
    have hbody := hrecorded.script hopens
    exact .script hopens (ih hbody hbefore)
  | @constructor info scope ms line id bodyLine body s t log out hfound _ ih =>
    have hinner := ih (hrecorded.constructor hfound _ _) hclean
    refine ⟨trivial, ?_, fun _ => rfl⟩
    rw [Task.lists, constructorLists, ← hrecorded.knownConstructor_eq, hfound]
    exact hinner.lists
  | @defaulted info scope ms line hnone s =>
    refine .of_empty trivial ?_ fun _ => rfl
    rw [Task.lists, constructorLists, ← hrecorded.knownConstructor_eq, hnone]
    rfl

namespace Session

/-- **A compilation without warnings covers the source.**  Every list of statements is lowered to its
end and as it stands, and no value is returned outside of a callable. -/
theorem silent_compile_covers {document : Json.Value} {fallback : String} {u : CompilationUnit}
    {s : Session} {c : Compilation} (hload : Document.load document fallback = .ok u)
    (hsingle : ∀ d ∈ stmtClasses u.statements, d.members.countP Member.isConstructor ≤ 1)
    (hc : (s.compile u).1 = .ok c) (hclean : c.warnings = []) :
    (∀ body ∈ lists u.statements, Covered body) ∧ bodyReturnsValue u.statements = false := by
  obtain ⟨out, t, hdeclared, hrun, rfl, -⟩ := compile_ok hc
  have hbefore : t.warnings = [] :=
    warnings_eq_nil (t.withPrimary_retains u.context out.commands).warnings hclean
  obtain ⟨hplain, hlists, hvalues⟩ := hrun.covers (Document.load_named hload) hsingle
    (declared_recorded (Document.load_nodup hload) hdeclared) hbefore
  have hscope : (s.declared u).scope = (s.begin u).scope := (Untouched.statements hdeclared).scope
  refine ⟨List.forall_mem_cons.mpr ⟨hplain, hlists⟩, hvalues ?_⟩
  rw [hscope]
  rfl

/-- `class A { constructor() { { function g() {} } } m() { return 1; } }`, `function f() { f(); }` and
`abstract class B { async m() {} }`. -/
def silentDocument : Json.Value :=
  .object [("statements", .array [
    .object [("kind", .string "ClassDeclaration"), ("name", .string "A"), ("members", .array [
      .object [("kind", .string "Constructor"), ("body", .array [
        .object [("kind", .string "Block"), ("statements", .array [
          .object [("kind", .string "FunctionDeclaration"), ("name", .string "g"),
            ("body", .array [])]])]])],
      .object [("kind", .string "MethodDeclaration"), ("name", .string "m"), ("body", .array [
        .object [("kind", .string "ReturnStatement"), ("expression", .object [
          ("kind", .string "NumericLiteral"), ("value", .number (.integer 1))])]])]])],
    .object [("kind", .string "FunctionDeclaration"), ("name", .string "f"), ("body", .array [
      .object [("kind", .string "ExpressionStatement"), ("expression", .object [
        ("kind", .string "CallExpression"),
        ("expression", .object [("kind", .string "Identifier"), ("name", .string "f")])])]])],
    .object [("kind", .string "ClassDeclaration"), ("name", .string "B"), ("abstract", .bool true),
      ("members", .array [.object [("kind", .string "MethodDeclaration"), ("name", .string "m"),
        ("async", .bool true), ("body", .array [])]])]])]

/-- The unit of that document. -/
def silentUnit : CompilationUnit where
  fileName := "main.ts"
  context := "main"
  statements := [
    .classDef ⟨3, some "A", none, false, false, [
      .constructor ⟨1, some "constructor", [],
        some [.block 0 [.function ⟨0, some "g", [], some [], false, 0⟩]], false, 0⟩,
      .method ⟨2, some "m", [], some [.returning 0 (some (.number ⟨0, none⟩ (.ofInt 1)))], false, 0⟩
        false], 0⟩,
    .function ⟨4, some "f", [],
      some [.expression 0 (.call ⟨0, none⟩ (.identifier ⟨0, none⟩ "f") [])], false, 0⟩,
    .classDef ⟨6, some "B", none, false, true, [
      .method ⟨5, some "m", [], some [], true, 0⟩ false], 0⟩]
  declCount := 7

/-- Six lists are covered: that of the unit, the constructor, the block in it, `g`, the method and `f`. -/
theorem silent_compile_covers_nested :
    ∃ c, Document.load silentDocument "main.ts" = .ok silentUnit ∧
      (∀ d ∈ stmtClasses silentUnit.statements, d.members.countP Member.isConstructor ≤ 1) ∧
      (compile {} silentUnit).1 = .ok c ∧ c.warnings = [] ∧
      (lists silentUnit.statements).length = 6 ∧
      (∀ body ∈ lists silentUnit.statements, Covered body) ∧
      bodyReturnsValue silentUnit.statements = false := by
  have hload : Document.load silentDocument "main.ts" = .ok silentUnit := rfl
  have hsingle : ∀ d ∈ stmtClasses silentUnit.statements, d.members.countP Member.isConstructor ≤ 1 := by
    decide +kernel
  obtain ⟨c, hc⟩ : ∃ c, (compile {} silentUnit).1 = .ok c := exists_compilation (by decide +kernel)
  have hwarnings : (compile {} silentUnit).1.toOption.map (·.warnings) = some [] := by decide +kernel
  rw [hc] at hwarnings
  have hclean : c.warnings = [] := Option.some.inj hwarnings
  exact ⟨c, hload, hsingle, hc, hclean, by decide +kernel, silent_compile_covers hload hsingle hc hclean⟩

/-- `abstract class A { async m() {} }` -/
def abstractDocument : Json.Value :=
  .object [("statements", .array [
    .object [("kind", .string "ClassDeclaration"), ("name", .string "A"), ("abstract", .bool true),
      ("members", .array [.object [("kind", .string "MethodDeclaration"), ("name", .string "m"),
        ("async", .bool true), ("body", .array [])]])]])]

/-- The unit of that document. -/
def abstractUnit : CompilationUnit where
  fileName := "main.ts"
  context := "main"
  statements := [
    .classDef ⟨1, some "A", none, false, true, [.method ⟨0, some "m", [], some [], true, 0⟩ false], 0⟩]
  declCount := 2

/-- **A method with a body may be `async` without a warning**, in a class that is abstract. -/
theorem async_unnoticed :
    ∃ c, Document.load abstractDocument "main.ts" = .ok abstractUnit ∧
      (∀ d ∈ stmtClasses abstractUnit.statements, d.members.countP Member.isConstructor ≤ 1) ∧
      (compile {} abstractUnit).1 = .ok c ∧ c.warnings = [] ∧
      ∃ d ∈ stmtClasses abstractUnit.statements, ∃ f, .method f false ∈ d.members ∧
        f.body ≠ none ∧ f.isAsync = true := by
  obtain ⟨c, hc⟩ : ∃ c, (compile {} abstractUnit).1 = .ok c := exists_compilation (by decide +kernel)
  have hwarnings : (compile {} abstractUnit).1.toOption.map (·.warnings) = some [] := by decide +kernel
  rw [hc] at hwarnings
  refine ⟨c, rfl, ?_, hc, Option.some.inj hwarnings, ?_⟩
  · exact List.forall_mem_singleton.mpr (by decide)
  · exact ⟨_, List.mem_cons_self, _, List.mem_cons_self, Option.some_ne_none _, rfl⟩

end Session

end FrameScript
