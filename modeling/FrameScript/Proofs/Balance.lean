/-
  No script disappears in silence.

  Scripts are stored by name, and names can collide: of a function, of a class, of its constructor, of
  its methods and of the unit itself.  A script that finds its name taken replaces the one that was
  there, with a warning.  So what was produced can be counted from the answer, as scripts and warnings
  of that sort together (`Session.produced`), and it can be counted from the source, over the statements
  that lowering reaches (`reached`).

  1. Storing a script adds one to what was produced, whether or not the name is taken
     (`Session.produced_stored`); everything else that lowering does adds nothing.
  2. So work adds as many as it has bodies that are reached (`Runs.balance`, by induction on the run).

  Main statement: the two counts agree for a loaded unit (`Session.scripts_accounted`).
-/
import FrameScript.Proofs.Recorded
import FrameScript.Proofs.Warnings

namespace FrameScript

open Source

/-! ## Statements that are reached -/

/-- A method with a body. -/
def Source.Member.isMethod : Member → Bool
  | .method f _ => f.body.isSome
  | _ => false

mutual

/-- The statements that are lowered with some statements, at any depth.  Behind a statement that returns
there are none. -/
def Source.reached : List Stmt → List Stmt
  | [] => []
  | st :: rest => st :: (st.within ++ if st.returns then [] else reached rest)

/-- Those inside a statement. -/
def Source.Stmt.within : Stmt → List Stmt
  | .block _ body => reached body
  | .function f => f.within
  | .classDef c => c.within
  | _ => []

def Source.FunctionDecl.within : FunctionDecl → List Stmt
  | ⟨_, _, _, some body, _, _⟩ => reached body
  | ⟨_, _, _, none, _, _⟩ => []

def Source.ClassDecl.within : ClassDecl → List Stmt
  | ⟨_, _, _, isDeclared, isAbstract, members, _⟩ =>
    if isDeclared || isAbstract then [] else constructorWithin members ++ methodsWithin members

/-- Those inside the last constructor. -/
def Source.constructorWithin : List Member → List Stmt
  | [] => []
  | .constructor f :: rest =>
    if rest.any Member.isConstructor then constructorWithin rest else f.within
  | _ :: rest => constructorWithin rest

/-- Those inside the methods. -/
def Source.methodsWithin : List Member → List Stmt
  | [] => []
  | .method f _ :: rest => f.within ++ methodsWithin rest
  | _ :: rest => methodsWithin rest

end

/-- The number of scripts that a statement itself gives: one for a function, and two for a class with
one more for each method. -/
def Source.Stmt.scriptCount : Stmt → Nat
  | .function f => if f.body.isSome then 1 else 0
  | .classDef c => if c.isDeclared || c.isAbstract then 0 else 2 + c.members.countP Member.isMethod
  | _ => 0

/-- The number of scripts that statements give. -/
def Source.scriptCount : List Stmt → Nat
  | [] => 0
  | st :: sts => st.scriptCount + scriptCount sts

theorem Source.scriptCount_append (sts sts' : List Stmt) :
    scriptCount (sts ++ sts') = scriptCount sts + scriptCount sts' := by
  induction sts with
  | nil => exact (Nat.zero_add _).symm
  | cons st rest ih =>
    rw [List.cons_append, scriptCount, scriptCount, ih, Nat.add_assoc]

theorem Source.FunctionDecl.within_of_body {f : FunctionDecl} {body : List Stmt}
    (h : f.body = some body) : f.within = reached body := by
  obtain ⟨id, name, params, body', isAsync, line⟩ := f
  cases h
  rfl

theorem Source.ClassDecl.within_of_own {c : ClassDecl} (h : (c.isDeclared || c.isAbstract) = false) :
    c.within = constructorWithin c.members ++ methodsWithin c.members := by
  obtain ⟨id, name, parent, isDeclared, isAbstract, members, line⟩ := c
  rw [ClassDecl.within, show (isDeclared || isAbstract) = false from h]
  rfl

theorem constructorWithin_eq (ms : List Member) :
    constructorWithin ms = ((lastConstructor ms).map fun x => reached x.2.2).getD [] := by
  fun_induction lastConstructor ms with
  | case1 => rfl
  | case2 id name params body isAsync line rest ih =>
    rw [constructorWithin, ← lastConstructor_isSome, ih]
    cases lastConstructor rest with
    | some x => rfl
    | none => cases body <;> rfl
  | case3 m rest hm ih =>
    cases m with
    | constructor f =>
      obtain ⟨id, name, params, body, isAsync, line⟩ := f
      exact (hm id name params body isAsync line rfl).elim
    | _ => exact ih

/-! ## Scripts that are produced twice -/

/-- The warning says that a script is produced twice. -/
def Diagnostic.ReportsTwice (w : Diagnostic) : Prop := ∃ name, w.message = producedTwice name

/-- What such a message says behind the name. -/
def reportEnd : String := "` is produced twice; the last one is kept"

theorem toList_producedTwice (name : String) :
    (producedTwice name).toList = "script `".toList ++ (name.toList ++ reportEnd.toList) := by
  show (toString "script `" ++ toString name ++ reportEnd).toList = _
  rw [String.toList_append, String.toList_append, List.append_assoc]
  rfl

/-- The message without its ends. -/
def reportedName (message : String) : String :=
  let rest := message.toList.drop "script `".length
  .ofList (rest.take (rest.length - reportEnd.length))

theorem reportedName_producedTwice (name : String) : reportedName (producedTwice name) = name := by
  have hrest : (producedTwice name).toList.drop "script `".length = name.toList ++ reportEnd.toList := by
    rw [toList_producedTwice]
    exact List.drop_left
  have hlength : name.toList.length = (name.toList ++ reportEnd.toList).length - reportEnd.length := by
    simp only [List.length_append, String.length_toList, Nat.add_sub_cancel]
  unfold reportedName
  rw [hrest]
  dsimp only
  rw [List.take_left' hlength, String.ofList_toList]

instance : DecidablePred Diagnostic.ReportsTwice := fun w =>
  decidable_of_iff (w.message = producedTwice (reportedName w.message)) (by
    constructor
    · exact fun h => ⟨_, h⟩
    · rintro ⟨name, h⟩
      rw [h, reportedName_producedTwice])

theorem Diagnostic.Ordinary.not_reportsTwice {w : Diagnostic} (h : w.Ordinary) : ¬w.ReportsTwice := by
  rintro ⟨name, hname⟩
  refine h ?_
  rw [hname]
  exact head?_append (head?_append rfl)

namespace Session

/-- The number of scripts that were produced so far, with those that were replaced. -/
def produced (s : Session) : Nat := s.scripts.size + s.warnings.countP (·.ReportsTwice)

theorem Murmurs.produced_eq {s t : Session} (h : s.Murmurs t) : t.produced = s.produced := by
  obtain ⟨ws, hws, hwarnings⟩ := h.warnings
  have hnone : ws.countP (·.ReportsTwice) = 0 := by
    refine List.countP_eq_zero.mpr fun w hw => ?_
    rw [decide_eq_true_eq]
    exact (hws w hw).not_reportsTwice
  rw [produced, produced, h.scripts, hwarnings, List.countP_append, hnone, Nat.add_zero]

/-- Storing a script adds one, be it a script or a warning. -/
theorem produced_stored (s : Session) (name : String) (body : List Command) (line : Nat) :
    (s.stored name body line).produced = s.produced + 1 := by
  unfold stored produced
  dsimp only
  split
  · next htaken =>
    have hsize : (s.scripts.insert name body).size = s.scripts.size := by
      rw [Std.TreeMap.size_insert, Std.TreeMap.contains_eq_isSome_getElem?, if_pos htaken]
    have hreports : (s.warning line (producedTwice name)).ReportsTwice := ⟨name, rfl⟩
    have hcount : (s.warnings ++ [s.warning line (producedTwice name)]).countP (·.ReportsTwice) =
        s.warnings.countP (·.ReportsTwice) + 1 := by
      rw [List.countP_append, List.countP_singleton, if_pos (decide_eq_true hreports)]
    show (s.scripts.insert name body).size + _ = _
    rw [hsize]
    exact congrArg (s.scripts.size + ·) hcount
  · next hfree =>
    have hsize : (s.scripts.insert name body).size = s.scripts.size + 1 := by
      rw [Std.TreeMap.size_insert, Std.TreeMap.contains_eq_isSome_getElem?, if_neg hfree]
    show (s.scripts.insert name body).size + s.warnings.countP (·.ReportsTwice) = _
    rw [hsize]
    omega

end Session

/-! ## What work produces -/

/-- The scripts of the methods and of what is inside them. -/
def methodsCount (ms : List Member) : Nat := ms.countP Member.isMethod + scriptCount (methodsWithin ms)

theorem methodsCount_cons (m : Member) (ms : List Member) :
    methodsCount (m :: ms) = methodsCount [m] + methodsCount ms := by
  have hwithin : methodsWithin (m :: ms) = methodsWithin [m] ++ methodsWithin ms := by
    cases m with
    | method f isStatic => rw [methodsWithin, methodsWithin, methodsWithin, List.append_nil]
    | _ => rfl
  rw [methodsCount, methodsCount, methodsCount, hwithin, scriptCount_append, List.countP_cons,
    List.countP_singleton]
  omega

theorem methodsCount_method {f : FunctionDecl} {body : List Stmt} (h : f.body = some body)
    (isStatic : Bool) : methodsCount [.method f isStatic] = 1 + scriptCount (reached body) := by
  have hwithin : methodsWithin [.method f isStatic] = reached body := by
    rw [methodsWithin, methodsWithin, List.append_nil, f.within_of_body h]
  have hmethod : (Member.method f isStatic).isMethod = true := by rw [Member.isMethod, h]; rfl
  rw [methodsCount, hwithin, List.countP_singleton, if_pos hmethod]

/-- The number of scripts that the work produces. -/
def Task.scriptCount : Task → Nat
  | .stmts body => Source.scriptCount (reached body)
  | .stmt st => Source.scriptCount (st :: st.within)
  | .callable _ _ _ _ body => 1 + Source.scriptCount (reached body)
  | .members _ _ ms _ => 1 + (1 + Source.scriptCount (constructorWithin ms) + methodsCount ms)
  | .fieldsScript .. => 1
  | .bodies _ _ ms _ => 1 + Source.scriptCount (constructorWithin ms) + methodsCount ms
  | .initializer _ _ ms _ => 1 + Source.scriptCount (constructorWithin ms)
  | .methods _ _ ms => methodsCount ms
  | .method _ _ m => methodsCount [m]
  | .declarators _ | .declarator _ | .fields .. | .field .. => 0

theorem Task.split_scriptCount {task first rest : Task} (h : task.split = some (first, rest))
    (hnext : first.returns = false) : task.scriptCount = first.scriptCount + rest.scriptCount := by
  cases Task.splits h with
  | stmts st others =>
    have hst : st.returns = false := hnext
    rw [Task.scriptCount, Task.scriptCount, Task.scriptCount, reached, if_neg (by rw [hst]; decide),
      Source.scriptCount, scriptCount_append, Source.scriptCount, Nat.add_assoc]
  | methods info scope m others => exact methodsCount_cons m others
  | _ => rfl

/-- What a class produces. -/
theorem Source.ClassDecl.scriptCount_of_own {c : ClassDecl} (h : (c.isDeclared || c.isAbstract) = false)
    (info : ClassInfo) (scope : ClassScope) (line : Nat) :
    (Task.stmt (.classDef c)).scriptCount = (Task.members info scope c.members line).scriptCount := by
  have hown : (Stmt.classDef c).scriptCount = 2 + c.members.countP Member.isMethod := by
    rw [Stmt.scriptCount, h]
    rfl
  have hwithin : (Stmt.classDef c).within = constructorWithin c.members ++ methodsWithin c.members :=
    c.within_of_own h
  rw [Task.scriptCount, Task.scriptCount, Source.scriptCount, hown, hwithin, scriptCount_append, methodsCount]
  omega

/-- A script of its own comes on top of what its body produces. -/
theorem Opens.scriptCount_eq {task : Task} {s : Session} {script : Script} (h : Opens task s script) :
    task.scriptCount = 1 + script.body.scriptCount := by
  cases h <;> rfl

/-- Work that is passed over produces nothing. -/
theorem Idle.scriptCount_eq {classes : List ClassDecl} {task : Task} {s t : Session} {flow : Flow}
    (h : Idle task s flow t) (hrecorded : task.Recorded classes s.decls) : task.scriptCount = 0 := by
  cases h with
  | @signature f hbody =>
    obtain ⟨id, name, params, body, isAsync, line⟩ := f
    cases hbody
    rfl
  | @foreign c hforeign =>
    -- a class that has no scripts has nothing inside it that is reached
    obtain ⟨id, name, parent, isDeclared, isAbstract, members, line⟩ := c
    rw [Task.scriptCount, Source.scriptCount, Stmt.within, ClassDecl.within, Stmt.scriptCount,
      if_pos hforeign, if_pos hforeign]
    rfl
  | taken hnone hcontains => exact absurd hnone (hrecorded.class_ne_none hcontains)
  | unknown hnone => exact absurd hnone hrecorded.callable_ne_none
  | method info scope m hbody =>
    cases m with
    | method f isStatic =>
      obtain ⟨id, name, params, body, isAsync, line⟩ := f
      cases hbody _ _ rfl
      rfl
    | _ => rfl
  | _ => rfl

/-- **Work produces as many scripts as it has bodies that are reached.** -/
theorem Runs.balance {classes : List ClassDecl} (hnamed : Document.AllNamed classes) {task : Task}
    {s t : Session} {log : List Event} {out : Emitted Flow} (h : Runs task s log out t)
    (hrecorded : task.Recorded classes s.decls) : t.produced = s.produced + task.scriptCount := by
  induction h with
  | idle h =>
    rw [h.scriptCount_eq hrecorded, (Session.Murmurs.idle h).produced_eq]
    rfl
  | @seq task first rest _ _ _ _ _ _ _ hsplit hfirst _ ihfirst ihrest =>
    rw [ihrest (hrecorded.rest hsplit hfirst), ihfirst (hrecorded.first hsplit),
      Task.split_scriptCount hsplit hfirst.goes_on, Nat.add_assoc]
  | @returned st s t log commands rest hfirst ih =>
    have hst : st.returns = true := hfirst.stops
    have hcount : (Task.stmts (st :: rest)).scriptCount = (Task.stmt st).scriptCount := by
      rw [Task.scriptCount, reached, if_pos hst, List.append_nil]
      rfl
    rw [(Session.Murmurs.skipping t rest).produced_eq, ih (hrecorded.first rfl), hcount]
  | inside hinside _ ih =>
    rw [ih (hrecorded.inside hinside)]
    cases Task.encloses hinside with
    | block => exact congrArg _ (Nat.zero_add _).symm
    | bindings => rfl
  | declares _ _ s => rfl
  | evaluates htask he =>
    rw [((Session.Murmurs.evaluation htask).trans (.withEffects he.murmurs)).produced_eq]
    cases htask <;> rfl
  | @function f body s t u log out hbody hdeclared _ ih =>
    rw [t.warnedIf_decls] at ih
    have hcount : (Task.stmt (.function f)).scriptCount = 1 + scriptCount (reached body) := by
      rw [Task.scriptCount, Source.scriptCount, Stmt.scriptCount, hbody, Stmt.within, f.within_of_body hbody]
      rfl
    have hwarned : s.Murmurs (t.warnedIf f.isAsync f.line "async function is lowered synchronously") :=
      (Session.Murmurs.of_untouched (.function hdeclared)).trans
        (.warnedIf t f.isAsync f.line (c := 'a') rfl (by decide))
    rw [ih (hrecorded.function hbody hdeclared _ _ _), hwarned.produced_eq, hcount]
    rfl
  | @method info scope f isStatic body s t log out hbody _ ih =>
    rw [s.warnedIf_decls] at ih
    rw [ih (hrecorded.method hbody _ _ _),
      (Session.Murmurs.warnedIf s f.isAsync f.line (c := 'a') rfl (by decide)).produced_eq]
    exact congrArg _ (methodsCount_method hbody isStatic).symm
  | classDef hown hdeclared hinfo _ ih =>
    rw [ih (hrecorded.classDef hnamed hdeclared hinfo _ _), ← ClassDecl.scriptCount_of_own hown,
      (Session.Murmurs.of_untouched (.classDef hdeclared)).produced_eq]
  | @script task s t script log out hopens _ ih =>
    have hbody := hrecorded.script hopens
    have hinner : t.produced = s.produced + script.body.scriptCount := ih hbody
    have hclosed : (s.closed t).produced = t.produced := rfl
    rw [Session.produced_stored, hclosed, hinner, hopens.scriptCount_eq]
    omega
  | @constructor info scope ms line id bodyLine body s t log out hfound _ ih =>
    have hlast : lastConstructor ms = some (id, bodyLine, body) :=
      hrecorded.knownConstructor_eq.symm.trans hfound
    have hcount : (Task.initializer info scope ms line).scriptCount =
        1 + scriptCount (reached body) := by
      rw [Task.scriptCount, constructorWithin_eq, hlast]
      rfl
    rw [ih (hrecorded.constructor hfound _ _), hcount]
    rfl
  | @defaulted info scope ms line hnone s =>
    have hlast : lastConstructor ms = none := hrecorded.knownConstructor_eq.symm.trans hnone
    have hcount : (Task.initializer info scope ms line).scriptCount = 1 := by
      rw [Task.scriptCount, constructorWithin_eq, hlast]
      rfl
    rw [Session.produced_stored, hcount]

namespace Session

theorem produced_withPrimary (t : Session) (context : String) (commands : List Command) :
    (t.withPrimary context commands).produced = t.produced + 1 :=
  produced_stored _ _ _ _

/-- **No script disappears in silence.**  Every script that the source calls for is in the answer of a
compilation, or there is a warning that another one took its place. -/
theorem scripts_accounted {document : Json.Value} {fallback : String} {u : CompilationUnit} {s : Session}
    {c : Compilation} (hload : Document.load document fallback = .ok u)
    (hc : (s.compile u).1 = .ok c) :
    c.scripts.size + c.warnings.countP (·.ReportsTwice) = 1 + scriptCount (Source.reached u.statements) := by
  obtain ⟨out, t, hdeclared, hrun, rfl, -⟩ := compile_ok hc
  have hbalance := hrun.balance (Document.load_named hload)
    (declared_recorded (Document.load_nodup hload) hdeclared)
  have hbegin : (s.declared u).produced = 0 :=
    (Murmurs.of_untouched (.statements hdeclared)).produced_eq
  calc (t.withPrimary u.context out.commands).produced
    _ = t.produced + 1 := t.produced_withPrimary _ _
    _ = 0 + scriptCount (Source.reached u.statements) + 1 := by rw [hbalance, hbegin]; rfl
    _ = 1 + scriptCount (Source.reached u.statements) := by omega

/-- `function name() { body }` -/
def functionNode (name : String) (body : List Json.Value) : Json.Value :=
  .object [("kind", .string "FunctionDeclaration"), ("name", .string name), ("body", .array body)]

/-- A class `A` with two constructors, the first of which has a function `k` in it and the second `g`,
then `return`, then `h`, and with a method `m`; then `function A_m() {}`, a function `f` in a block, and
a function `z` behind a `return`. -/
def collidingDocument : Json.Value :=
  .object [("statements", .array [
    .object [("kind", .string "ClassDeclaration"), ("name", .string "A"), ("members", .array [
      .object [("kind", .string "Constructor"), ("body", .array [functionNode "k" []])],
      .object [("kind", .string "Constructor"), ("body", .array [functionNode "g" [],
        .object [("kind", .string "ReturnStatement")], functionNode "h" []])],
      .object [("kind", .string "MethodDeclaration"), ("name", .string "m"), ("body", .array [])]])],
    functionNode "A_m" [],
    .object [("kind", .string "Block"), ("statements", .array [functionNode "f" []])],
    .object [("kind", .string "ReturnStatement")], functionNode "z" []])]

/-- The unit of that document. -/
def collidingUnit : CompilationUnit where
  fileName := "main.ts"
  context := "main"
  statements := [
    .classDef ⟨6, some "A", none, false, false, [
      .constructor ⟨1, some "constructor", [],
        some [.function ⟨0, some "k", [], some [], false, 0⟩], false, 0⟩,
      .constructor ⟨4, some "constructor", [],
        some [.function ⟨2, some "g", [], some [], false, 0⟩, .returning 0 none,
          .function ⟨3, some "h", [], some [], false, 0⟩], false, 0⟩,
      .method ⟨5, some "m", [], some [], false, 0⟩ false], 0⟩,
    .function ⟨7, some "A_m", [], some [], false, 0⟩,
    .block 0 [.function ⟨8, some "f", [], some [], false, 0⟩],
    .returning 0 none, .function ⟨9, some "z", [], some [], false, 0⟩]
  declCount := 10

/-- Seven scripts are called for, and two of them have one name. -/
theorem scripts_accounted_colliding :
    ∃ c, Document.load collidingDocument "main.ts" = .ok collidingUnit ∧
      (compile {} collidingUnit).1 = .ok c ∧ c.scripts.size = 6 ∧
      c.scripts.size + c.warnings.countP (·.ReportsTwice) = 1 + 6 := by
  have hload : Document.load collidingDocument "main.ts" = .ok collidingUnit := rfl
  obtain ⟨c, hc⟩ : ∃ c, (compile {} collidingUnit).1 = .ok c := exists_compilation (by decide +kernel)
  have hsize : (compile {} collidingUnit).1.toOption.map (·.scripts.size) = some 6 := by decide +kernel
  rw [hc] at hsize
  exact ⟨c, hload, hc, Option.some.inj hsize, scripts_accounted hload hc⟩

end Session

end FrameScript
