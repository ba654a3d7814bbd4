/-
  Which return slots are written.

  A callable has a return slot if its body contains a return of a value, in its blocks or itself.
  Lowering stops at the first return, whatever it returns, and does not come to those behind it.  So the
  slot is written if the first return has a value, and then it is the last thing that the script does.
  If the first return is bare and another one has a value, there is a slot, callers read it, and no
  return writes it.

  `Runs.returns_into` follows a run of lowering to its first return.  `Premise.declaredIn` says that a
  script is made from the body of the declaration whose id it has, so the look at the declaration and the
  run are about the same statements.
-/
import FrameScript.Proofs.Operands
import FrameScript.Proofs.Pieces
import FrameScript.Proofs.Returns

namespace FrameScript

open Source

/-! ## The first return -/

mutual

/-- The first return of a statement, and what it returns. -/
def Source.Stmt.firstReturn? : Stmt → Option (Option Expr)
  | .returning _ value => some value
  | .block _ body => firstReturn? body
  | _ => none

def Source.firstReturn? : List Stmt → Option (Option Expr)
  | [] => none
  | st :: rest => st.firstReturn?.or (firstReturn? rest)

end

mutual

theorem Source.Stmt.isSome_firstReturn? : ∀ st : Stmt, st.firstReturn?.isSome = st.returns
  | .returning _ _ => rfl
  | .block _ body => isSome_firstReturn? body
  | .imports .. | .bindings .. | .expression .. | .function _ | .classDef _ | .typeOnly _ | .empty _
  | .other .. => rfl

/-- Lowering stops just if there is a return. -/
theorem Source.isSome_firstReturn? : ∀ body : List Stmt, (firstReturn? body).isSome = bodyReturns body
  | [] => rfl
  | st :: rest => by
    rw [firstReturn?, Option.isSome_or, st.isSome_firstReturn?, isSome_firstReturn? rest, bodyReturns]

end

mutual

theorem Source.Stmt.returns_of_value : ∀ st : Stmt, st.returnsValue = true → st.returns = true
  | .returning .., _ => rfl
  | .block _ body, h => bodyReturns_of_value body h

theorem Source.bodyReturns_of_value : ∀ body : List Stmt, bodyReturnsValue body = true →
    bodyReturns body = true
  | st :: rest, h => by
    rw [bodyReturnsValue, Bool.or_eq_true] at h
    rw [bodyReturns, Bool.or_eq_true]
    exact h.imp st.returns_of_value (bodyReturns_of_value rest)

end

def Task.firstReturn? : Task → Option (Option Expr)
  | .stmts body => Source.firstReturn? body
  | .stmt st => st.firstReturn?
  | _ => none

theorem Task.split_firstReturn? {task first rest : Task} (h : task.split = some (first, rest))
    (hfirst : first.returns = false) : task.firstReturn? = rest.firstReturn? := by
  cases Task.splits h with
  | stmts st others =>
    have hst : st.firstReturn?.isSome = false := st.isSome_firstReturn?.trans hfirst
    show st.firstReturn?.or (Source.firstReturn? others) = Source.firstReturn? others
    rw [Option.isSome_eq_false_iff, Option.isNone_iff_eq_none] at hst
    rw [hst, Option.none_or]
  | _ => rfl

/-! ## A run to its first return -/

/-- The commands end with an expression and the assignment of its value to the slot. -/
def ReturnsInto (slot : String) (e : Expr) (commands : List Command) : Prop :=
  ∃ front evaluated v, ∃ (q : Surroundings) (fx gx : Effects),
    (Lower.expr q e).run fx = (.ok ⟨evaluated, some v⟩, gx) ∧
    commands = front ++ evaluated ++ [Lower.assign q slot v]

theorem ReturnsInto.behind {slot : String} {e : Expr} {commands : List Command}
    (h : ReturnsInto slot e commands) (before : List Command) : ReturnsInto slot e (before ++ commands) := by
  obtain ⟨front, evaluated, v, q, fx, gx, hvalue, rfl⟩ := h
  refine ⟨before ++ front, evaluated, v, q, fx, gx, hvalue, ?_⟩
  rw [List.append_assoc, List.append_assoc, List.append_assoc]

/-- **What is returned first goes into the slot**, if it is a value, and nothing is emitted behind. -/
theorem Runs.returns_into {task : Task} {s t : Session} {log : List Event} {out : Emitted Flow}
    (h : Runs task s log out t) (hfit : task.Fit s.decls) {k : Callable} (hk : s.callable? = some k)
    {slot : String} (hslot : k.returnSlot = some slot) {e : Expr}
    (hfirst : task.firstReturn? = some (some e)) : ReturnsInto slot e out.commands := by
  induction h with
  | idle h => cases h <;> cases hfirst
  | @seq task first rest s t u log log' commands out hsplit hrun hrest _ ihrest =>
    have hk' : t.callable? = some k := by
      rw [Surroundings.callable?, hrun.place_eq.2]
      obtain ⟨id, hid, hrecord⟩ := Option.bind_eq_some_iff.mp hk
      rw [hid]
      exact (hrun.sub (hfit.first hsplit)).callable hrecord
    rw [Task.split_firstReturn? hsplit hrun.goes_on] at hfirst
    exact (ihrest (hfit.rest hsplit hrun) hk' hfirst).behind commands
  | @returned st s t log commands rest hrun ih =>
    -- the statement returns, so its first return is the first one of all
    have hst : st.firstReturn?.isSome = true := st.isSome_firstReturn?.trans hrun.stops
    refine ih (hfit.first rfl) hk ?_
    rwa [Task.firstReturn?, Source.firstReturn?, Option.or_of_isSome hst] at hfirst
  | inside hinside _ ih =>
    cases Task.encloses hinside with
    | block line body => exact ih (hfit.inside rfl) hk hfirst
    | bindings line ds => cases hfirst
  | evaluates htask he =>
    cases htask with
    | returned line value hreturn =>
      obtain rfl := Option.some.inj (Option.some.inj hfirst)
      rw [hk, Option.bind_some, hslot] at hreturn
      obtain rfl := Option.some.inj hreturn
      cases he with
      | stored slot hvalue => exact ⟨[], _, _, _, _, _, hvalue, rfl⟩
    | discarded line value hnone =>
      rw [hk, Option.bind_some, hslot] at hnone
      cases hnone
    | _ => cases hfirst
  | script hopens _ _ => cases hopens <;> cases hfirst
  | _ => cases hfirst

/-! ## Bodies and their declarations -/

theorem Source.Member.decls_subset {ms : List Member} {m : Member} (hm : m ∈ ms) :
    m.decls ⊆ memberDecls ms := by
  induction ms with
  | nil => exact absurd hm List.not_mem_nil
  | cons first rest ih =>
    rw [memberDecls]
    rcases List.mem_cons.mp hm with rfl | hm
    · exact List.subset_append_left _ _
    · exact List.Subset.trans (ih hm) (List.subset_append_right _ _)

/-- The function is one of the declarations, and so is all that is declared in its body. -/
theorem Source.FunctionDecl.decls_of_body {f : FunctionDecl} {body : List Stmt} {ds : List Decl}
    (hbody : f.body = some body) (h : f.decls ⊆ ds) : Source.decls body ⊆ ds ∧ .function f ∈ ds := by
  rw [f.decls_eq, hbody, List.append_subset] at h
  exact ⟨h.1, h.2 List.mem_cons_self⟩

/-- The work is about these declarations, and the script of a callable is made from the body of the one
with its id. -/
def Task.DeclaredIn (ds : List Decl) : Task → Prop
  | .stmts body => decls body ⊆ ds
  | .stmt st => st.decls ⊆ ds
  | .callable id _ _ _ body => decls body ⊆ ds ∧ ∃ f, .function f ∈ ds ∧ f.id = id ∧ f.body = some body
  | .members _ _ ms _ | .bodies _ _ ms _ | .initializer _ _ ms _ | .methods _ _ ms => memberDecls ms ⊆ ds
  | .method _ _ m => m.decls ⊆ ds
  | .declarators _ | .declarator _ | .fieldsScript .. | .fields .. | .field .. => True

theorem Task.DeclaredIn.split {task first rest : Task} {ds : List Decl} (h : task.DeclaredIn ds)
    (hsplit : task.split = some (first, rest)) : first.DeclaredIn ds ∧ rest.DeclaredIn ds := by
  cases Task.splits hsplit with
  | stmts st others => exact List.append_subset.mp h
  | methods info scope m others => exact List.append_subset.mp h
  | members => exact ⟨trivial, h⟩
  | bodies => exact ⟨h, h⟩
  | _ => exact ⟨trivial, trivial⟩

/-- **Scripts are made from what was declared.** -/
theorem Piece.Premise.declaredIn {p p' : Piece} (h : p.Premise p') {ds : List Decl}
    (hp : p.task.DeclaredIn ds) : p'.task.DeclaredIn ds := by
  cases h with
  | first hsplit _ _ => exact (hp.split hsplit).1
  | rest hsplit _ _ => exact (hp.split hsplit).2
  | returned rest _ => exact (hp.split rfl).1
  | inside hinside _ =>
    cases Task.encloses hinside with
    | block => exact hp
    | bindings => trivial
  | @function f body s t u log out hbody _ _ =>
    obtain ⟨hinner, hf⟩ := FunctionDecl.decls_of_body hbody hp
    exact ⟨hinner, f, hf, rfl, hbody⟩
  | @method info scope f isStatic body s t log out hbody _ =>
    obtain ⟨hinner, hf⟩ := FunctionDecl.decls_of_body hbody hp
    exact ⟨hinner, f, hf, rfl, hbody⟩
  | @classDef c info s t u log out _ _ _ _ =>
    have hall : c.decls ⊆ ds := hp
    rw [c.decls_eq] at hall
    exact (List.append_subset.mp hall).1
  | script hopens _ =>
    cases hopens with
    | callable => exact hp.1
    | fields => trivial
  | constructor hfound _ =>
    obtain ⟨f, hf, hid, hbody⟩ := knownConstructor_mem hfound
    have hdecls : f.decls ⊆ ds := List.Subset.trans (Member.decls_subset hf) hp
    obtain ⟨hinner, hf'⟩ := FunctionDecl.decls_of_body hbody hdecls
    exact ⟨hinner, f, hf', hid, hbody⟩

/-- Somewhere in the piece a known callable gets its script. -/
def Piece.Hoists (p : Piece) (id : DeclId) : Prop :=
  ∃ q line enclosing prologue body, Relation.ReflTransGen Premise p q ∧
    q.task = .callable id line enclosing prologue body ∧ (q.start.decls.callable? id).isSome

theorem Piece.Hoists.of_premise {p p' : Piece} {id : DeclId} (h : p'.Hoists id) (hpremise : p.Premise p') :
    p.Hoists id := by
  obtain ⟨q, line, enclosing, prologue, body, hpieces, hq⟩ := h
  exact ⟨q, line, enclosing, prologue, body, .head hpremise hpieces, hq⟩

/-- A body that is reached is lowered in some piece. -/
theorem Runs.hoists {task : Task} {s t : Session} {log : List Event} {out : Emitted Flow}
    (h : Runs task s log out t) {id : DeclId} (hid : .hoists id ∈ log) :
    Piece.Hoists ⟨task, s, log, out, t⟩ id := by
  induction h with
  | idle h => exact absurd hid List.not_mem_nil
  | seq hsplit hfirst hrest ihfirst ihrest =>
    rcases List.mem_append.mp hid with hid | hid
    · exact (ihfirst hid).of_premise (.first hsplit hfirst hrest)
    · exact (ihrest hid).of_premise (.rest hsplit hfirst hrest)
  | returned rest hfirst ih => exact (ih hid).of_premise (.returned rest hfirst)
  | inside hinside h ih => exact (ih hid).of_premise (.inside hinside h)
  | declares _ _ s => exact absurd hid List.not_mem_nil
  | evaluates htask he => cases List.mem_singleton.mp hid
  | function hbody hdeclared h ih => exact (ih hid).of_premise (.function hbody hdeclared h)
  | method hbody h ih => exact (ih hid).of_premise (.method hbody h)
  | classDef hown hdeclared hinfo h ih => exact (ih hid).of_premise (.classDef hown hdeclared hinfo h)
  | script hopens h ih =>
    rcases List.mem_append.mp hid with hentered | hid
    · cases hopens with
      | callable hk line enclosing prologue body =>
        cases List.mem_singleton.mp hentered
        exact ⟨_, line, enclosing, prologue, body, .refl, rfl, Option.isSome_of_eq_some hk⟩
      | fields info scope ms line => exact absurd hentered List.not_mem_nil
    · exact (ih hid).of_premise (.script hopens h)
  | constructor hfound h ih => exact (ih hid).of_premise (.constructor hfound h)
  | defaulted scope line _ s => exact absurd hid List.not_mem_nil

/-- The script of a callable, at the moment when it is stored. -/
theorem Piece.Sound.script_returns {u : CompilationUnit} {log log' : List Event} {e s t : Session}
    {id : DeclId} {line : Nat} {enclosing : Option ClassScope} {prologue : List Command} {body : List Stmt}
    {out : Emitted Flow} {k : Callable} {slot : String} {value : Expr}
    (h : Piece.Sound u log e ⟨.callable id line enclosing prologue body, s, log', out, t⟩)
    (hk : s.decls.callable? id = some k) (hslot : k.returnSlot = some slot)
    (hfirst : firstReturn? body = some (some value)) :
    ∃ script, t.scripts[k.script]? = some script ∧ ReturnsInto slot value script := by
  have hrun : Runs (.callable id line enclosing prologue body) s log' out t := h.run
  cases hrun with
  | idle h =>
    cases h with
    | unknown hnone => cases hnone.symm.trans hk
  | seq hsplit _ _ => cases hsplit
  | inside hinside _ => cases hinside
  | evaluates htask _ => cases htask
  | @script _ _ m script log' out hopens hrun =>
    have hfit := h.fit.script hopens
    cases hopens with
    | callable hk' =>
      obtain rfl := Option.some.inj (hk.symm.trans hk')
      have hbody := hrun.returns_into hfit hk hslot hfirst
      exact ⟨_, Session.getElem?_stored _ _ _ _, hbody.behind _⟩

namespace Session

variable {s : Session} {u : CompilationUnit} {c : Compilation}

/-- What is recorded in the end agrees with the unit. -/
theorem compile_holds (hV : u.summary.Covers (decls u.statements)) (hcompile : (s.compile u).1 = .ok c) :
    u.summary.Holds (s.compile u).2.decls := by
  have hbegin : u.summary.Holds (s.begin u).decls := fun id k hk =>
    nomatch (DeclTable.callable?_none (s.begin_free u id)).symm.trans hk
  have haccounts := s.lowerUnit_accounts hV
  unfold compile at hcompile ⊢
  rcases hrun : (lowerUnit u).run (s.begin u) with ⟨_ | result, t⟩
  · rw [hrun] at hcompile
    cases hcompile
  · exact (haccounts.keeping result t hrun).holds hbegin

/-- **Which return slots are written.**  A unit is loaded and compiled, a callable of it has a return slot,
its body is reached, and no other script takes the place of its script.  Then the script ends with the
assignment of a returned value to the slot, the value of the first return of the body, unless this return
is bare. -/
theorem return_slot_written {document : Json.Value} {fallback : String}
    (hload : Document.load document fallback = .ok u) (hcompile : (s.compile u).1 = .ok c)
    {f : FunctionDecl} (hf : .function f ∈ decls u.statements) {k : Callable}
    (hk : (s.compile u).2.decls.callable? f.id = some k) {slot : String} (hslot : k.returnSlot = some slot)
    (hreached : .hoists f.id ∈ s.log u) (honce : ∀ w ∈ c.warnings, w.message ≠ producedTwice k.script) :
    ∃ body, f.body = some body ∧ (firstReturn? body = some none ∨
      ∃ value script, firstReturn? body = some (some value) ∧ c.scripts[k.script]? = some script ∧
        ReturnsInto slot value script) := by
  have hnodup := (Document.load_numbers hload).1
  have hcovers := CompilationUnit.summary_covers hnodup
  -- the piece in which the script is made
  obtain ⟨out, t, hlowers⟩ := exists_lowers hcompile
  obtain ⟨q, line, enclosing, prologue, body, hpieces, hq, hknown⟩ := hlowers.run.hoists hreached
  obtain ⟨out, t, hlowers, hsound, hdeclared⟩ := Does.inherits ⟨out, t, hlowers, hpieces⟩
    (Document.load_nodup hload) (J := fun _ p => p.task.DeclaredIn (decls u.statements))
    (fun _ _ _ => List.Subset.refl _) fun _ _ _ _ hpremise => hpremise.declaredIn
  obtain ⟨task, start, log, out', finish⟩ := q
  obtain rfl : task = .callable f.id line enclosing prologue body := hq
  -- its body is that of the declaration
  obtain ⟨-, f', hf', hid, hbody⟩ := hdeclared
  obtain rfl : f' = f := Decl.function.inj (List.inj_on_of_nodup_map hnodup hf' hf hid)
  refine ⟨body, hbody, ?_⟩
  -- its record is that of the end
  obtain ⟨k', hk'⟩ := Option.isSome_iff_exists.mp hknown
  have hend := hsound.sub.callable ((hsound.run.sub hsound.fit).callable hk')
  rw [← hlowers.decls_eq] at hend
  obtain rfl : k' = k := Option.some.inj (hend.symm.trans hk)
  -- there is a slot because the body has a return of a value
  have hvalue := (hcovers _ hf).symm.trans (compile_holds hcovers hcompile _ _ hk)
  rw [Decl.returnsValue?, hbody, hslot] at hvalue
  have hreturns : (firstReturn? body).isSome = true :=
    (isSome_firstReturn? body).trans (bodyReturns_of_value body (Option.some.inj hvalue))
  obtain ⟨value, hfirst⟩ := Option.isSome_iff_exists.mp hreturns
  cases value with
  | none => exact .inl hfirst
  | some value =>
    obtain ⟨script, hscript, hinto⟩ := hsound.script_returns hk' hslot hfirst
    obtain rfl := Except.ok.inj (hcompile.symm.trans hlowers.result)
    have hretains := hsound.retains.trans (t.withPrimary_retains u.context out.commands)
    rcases hretains.scripts _ _ hscript with hkept | ⟨w, hw, hmessage⟩
    · exact .inr ⟨value, script, hfirst, hkept, hinto⟩
    · exact absurd hmessage (honce w hw)

/-! A callable with a block and two returns of values, and one that returns before it returns a value. -/

/-- The document of `return n`, or of a bare `return`. -/
def returnNode (value : Option Int) : Json.Value :=
  .object ([("kind", .string "ReturnStatement")] ++ (value.map fun n => ("expression",
    Json.Value.object [("kind", .string "NumericLiteral"), ("value", .number (.integer n))])).toList)

/-- The document of `function f() { body } let x = f()`. -/
def resultDocument (body : List Json.Value) : Json.Value :=
  .object [("statements", .array [
    namedNode "FunctionDeclaration" "f" [("body", .array body)],
    .object [("kind", .string "VariableStatement"), ("declarations", .array [
      namedNode "VariableDeclaration" "x" [("initializer", .object [("kind", .string "CallExpression"),
        ("expression", namedNode "Identifier" "f" []), ("arguments", .array [])])]])]])]

def returnStmt (value : Option Int) : Stmt := .returning 0 (value.map fun n => .number ⟨0, none⟩ (.ofInt n))

/-- The function of the document. -/
def resultFunction (body : List Stmt) : FunctionDecl := ⟨0, some "f", [], some body, false, 0⟩

/-- The call of the function. -/
def resultCall : Expr := .call ⟨0, none⟩ (.identifier ⟨0, none⟩ "f") []

/-- The unit of the document. -/
def resultUnit (body : List Stmt) : CompilationUnit where
  fileName := "main.ts"
  context := "main"
  statements := [.function (resultFunction body), .bindings 0 [⟨.identifier "x", some resultCall, 0⟩]]
  declCount := 1

/-- `{ return 1 } return 2` -/
def blockBody : List Stmt := [.block 0 [returnStmt (some 1)], returnStmt (some 2)]

/-- `return; return 1` -/
def hastyBody : List Stmt := [returnStmt none, returnStmt (some 1)]

/-- The record of the function. -/
def resultCallable : Callable where
  script := "f"
  path := "main/f"
  params := []
  returnSlot := some "f_return_1"

/-- The warnings of both compilations are about what stands behind the first return. -/
theorem skipping_once {c : Compilation}
    (h : c.warnings.map (·.message) = ["unreachable code: 1 statement(s) after return are skipped"]) :
    ∀ w ∈ c.warnings, w.message ≠ producedTwice resultCallable.script := by
  intro w hw
  have hmessage := List.mem_map_of_mem (f := (·.message)) hw
  rw [h, List.mem_singleton] at hmessage
  rw [hmessage]
  decide

/-- The first return is that in the block. -/
theorem return_slot_written_block :
    ∃ c script, (compile {} (resultUnit blockBody)).1 = .ok c ∧ c.scripts["f"]? = some script ∧
      ReturnsInto "f_return_1" (.number ⟨0, none⟩ (.ofInt 1)) script := by
  have hload : Document.load (resultDocument [
      .object [("kind", .string "Block"), ("statements", .array [returnNode (some 1)])],
      returnNode (some 2)]) "main.ts" = .ok (resultUnit blockBody) := rfl
  obtain ⟨c, hc⟩ : ∃ c, (compile {} (resultUnit blockBody)).1 = .ok c :=
    exists_compilation (by decide +kernel)
  have hwarnings : (compile {} (resultUnit blockBody)).1.toOption.map (·.warnings.map (·.message)) =
      some ["unreachable code: 1 statement(s) after return are skipped"] := by decide +kernel
  rw [hc] at hwarnings
  have hlog : log {} (resultUnit blockBody) = .hoists 0 :: (log {} (resultUnit blockBody)).tail := rfl
  have hreached : .hoists 0 ∈ log {} (resultUnit blockBody) := by
    rw [hlog]
    exact List.mem_cons_self
  have hrecord : (compile {} (resultUnit blockBody)).2.decls.callable? 0 = some resultCallable := by
    decide +kernel
  obtain ⟨body, hbody, hreturn⟩ := return_slot_written hload hc (f := resultFunction blockBody)
    List.mem_cons_self hrecord rfl hreached (skipping_once (Option.some.inj hwarnings))
  obtain rfl : blockBody = body := Option.some.inj hbody
  rcases hreturn with hbare | ⟨value, script, hvalue, hscript, hinto⟩
  · cases hbare
  · obtain rfl := Option.some.inj (Option.some.inj hvalue)
    exact ⟨c, script, hc, hscript, hinto⟩

/-- **A return slot that is not written.**  The body returns before it returns a value.  Its callable has
a slot, which the caller reads, and no command of the script has it for its target.  Without the return
that is never reached, the same call is refused, since it has no value. -/
theorem return_slot_unwritten :
    Document.load (resultDocument [returnNode none, returnNode (some 1)]) "main.ts" =
      .ok (resultUnit hastyBody) ∧
    (∃ c, (compile {} (resultUnit hastyBody)).1 = .ok c ∧
      (compile {} (resultUnit hastyBody)).2.decls.callable? 0 = some resultCallable ∧
      .hoists 0 ∈ log {} (resultUnit hastyBody) ∧
      (∀ w ∈ c.warnings, w.message ≠ producedTwice resultCallable.script) ∧
      (∃ script, c.scripts["f"]? = some script ∧ ∀ d ∈ script, d.target? ≠ some "f_return_1") ∧
      ∃ script, c.scripts["main"]? = some script ∧ ∃ d ∈ script, "f_return_1" ∈ d.reads) ∧
    ∃ e, (compile {} (resultUnit [returnStmt none])).1 = .error e ∧
      e.cause = .noValue "CallExpression" := by
  obtain ⟨c, hc⟩ : ∃ c, (compile {} (resultUnit hastyBody)).1 = .ok c :=
    exists_compilation (by decide +kernel)
  have hresult : (compile {} (resultUnit hastyBody)).1.toOption.map (fun c =>
        (c.warnings.map (·.message), c.scripts["f"]?, c.scripts["main"]?)) =
      some (["unreachable code: 1 statement(s) after return are skipped"], some [.declare "f_return_1"],
        some [.declare "x_2", .summon "main", .invoke "main/f",
          .operation (some "main") "x_2" .assign "f_return_1", .kill "main"]) := by
    decide +kernel
  rw [hc] at hresult
  obtain ⟨hwarnings, hscripts⟩ := Prod.mk.inj (Option.some.inj hresult)
  obtain ⟨hf, hmain⟩ := Prod.mk.inj hscripts
  have hlog : log {} (resultUnit hastyBody) = .hoists 0 :: (log {} (resultUnit hastyBody)).tail := rfl
  refine ⟨rfl, ⟨c, hc, by decide +kernel, ?_, skipping_once hwarnings, ⟨_, hf, by decide⟩,
    ⟨_, hmain, by decide⟩⟩, _, rfl, rfl⟩
  rw [hlog]
  exact List.mem_cons_self

end Session

end FrameScript
