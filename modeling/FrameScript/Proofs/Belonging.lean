/-
  Members belong to their own class.

  Wherever code stands inside a class, `this.p` is the slot of the property `p` of that class and
  `this.m(...)` invokes its method `m`, given that the keys of the unit's members are apart.

  1. `ClassDecl.code` lists the expressions that stand in a class, and `Runs.belongs` follows the log
     of a run: an expression that is lowered with a class around it stands in that class, and the
     class offers its members there.
  2. `Surroundings.ThisMember` says what `this.name` is, in each of the places where it can stand.
  3. `Session.members_belong` is the law for units, and `Session.members_mixed` shows what becomes of
     it when two classes share a key.
-/
import FrameScript.Proofs.Keys

namespace FrameScript

open Source

/-! ## The code of a class -/

mutual

/-- The expressions that a statement lowers itself, those inside of classes apart. -/
def Source.Stmt.code : Stmt → List Expr
  | .block _ body => stmtsCode body
  | .bindings _ ds => ds.filterMap (·.initializer)
  | .expression _ e => [e.unwrapped]
  | .returning _ e => e.toList
  | .function f => f.code
  | .imports .. | .classDef _ | .typeOnly _ | .empty _ | .other .. => []

/-- The expressions of some statements. -/
def Source.stmtsCode : List Stmt → List Expr
  | [] => []
  | st :: rest => st.code ++ stmtsCode rest

/-- The expressions in the body of a function, method or constructor. -/
def Source.FunctionDecl.code : FunctionDecl → List Expr
  | ⟨_, _, _, some body, _, _⟩ => stmtsCode body
  | ⟨_, _, _, none, _, _⟩ => []

end

/-- The expressions in the body of a member, or in its initializer. -/
def Source.Member.code : Member → List Expr
  | .method f _ => f.code
  | .constructor f => f.code
  | .property p => p.initializer.toList
  | .other .. => []

/-- The expressions that stand in a class, those in the classes inside it apart. -/
def Source.ClassDecl.code (c : ClassDecl) : List Expr := c.members.flatMap Member.code

theorem Source.FunctionDecl.code_of_body {f : FunctionDecl} {body : List Stmt}
    (h : f.body = some body) : f.code = stmtsCode body := by
  obtain ⟨id, name, params, body', isAsync, line⟩ := f
  cases h
  rfl

/-- The expressions of a piece of work, those inside of classes apart. -/
def Task.code : Task → List Expr
  | .stmts body | .callable _ _ _ _ body => stmtsCode body
  | .stmt st => st.code
  | .declarators ds => ds.filterMap (·.initializer)
  | .declarator d => d.initializer.toList
  | .members _ _ ms _ | .fieldsScript _ _ ms _ | .bodies _ _ ms _ | .initializer _ _ ms _
  | .fields _ ms | .methods _ _ ms => ms.flatMap Member.code
  | .field _ m | .method _ _ m => m.code

/-- The class around the expressions of a piece of work. -/
def Task.around (task : Task) (q : Surroundings) : Option ClassScope :=
  match task with
  | .callable _ _ enclosing _ _ => enclosing
  | .members _ scope _ _ | .fieldsScript _ scope _ _ | .bodies _ scope _ _
  | .initializer _ scope _ _ | .methods _ scope _ | .method _ scope _ => some scope
  | .stmts _ | .stmt _ | .declarators _ | .declarator _ | .fields .. | .field .. => q.scope.enclosing

namespace Task

theorem split_code {task first rest : Task} (h : task.split = some (first, rest)) :
    first.code ⊆ task.code ∧ rest.code ⊆ task.code := by
  cases Task.splits h with
  | stmts => exact ⟨List.subset_append_left _ _, List.subset_append_right _ _⟩
  | declarators d ds =>
    have hcode : (Task.declarators (d :: ds)).code =
        d.initializer.toList ++ (Task.declarators ds).code := by
      rw [Task.code, List.filterMap_cons]
      cases d.initializer <;> rfl
    rw [hcode]
    exact ⟨List.subset_append_left _ _, List.subset_append_right _ _⟩
  | members => exact ⟨List.Subset.refl _, List.Subset.refl _⟩
  | bodies => exact ⟨List.Subset.refl _, List.Subset.refl _⟩
  | fields => exact ⟨List.subset_append_left _ _, List.subset_append_right _ _⟩
  | methods => exact ⟨List.subset_append_left _ _, List.subset_append_right _ _⟩

theorem split_around {task first rest : Task} {q q' : Surroundings} (hscope : q'.scope = q.scope)
    (h : task.split = some (first, rest)) :
    first.around q = task.around q ∧ rest.around q' = task.around q := by
  cases Task.splits h with
  | stmts => exact ⟨rfl, congrArg LexicalScope.enclosing hscope⟩
  | declarators => exact ⟨rfl, congrArg LexicalScope.enclosing hscope⟩
  | fields => exact ⟨rfl, congrArg LexicalScope.enclosing hscope⟩
  | _ => exact ⟨rfl, rfl⟩

theorem inside_code {task inner : Task} (h : task.inside = some inner) (q : Surroundings) :
    inner.code = task.code ∧ inner.around q = task.around q := by
  cases Task.encloses h <;> exact ⟨rfl, rfl⟩

end Task

theorem Opens.code_subset {task : Task} {s : Session} {script : Script} (h : Opens task s script) :
    script.body.code ⊆ task.code ∧
      script.body.around (s.opened script.scope script.slots).toSurroundings =
        task.around s.toSurroundings := by
  cases h with
  | callable => exact ⟨List.Subset.refl _, rfl⟩
  | fields => exact ⟨List.Subset.refl _, rfl⟩

/-- An expression is evaluated in the work that it stands in. -/
theorem Evaluation.mem_code {task : Task} {s t : Session} {use : Use} {e : Expr} {flow : Flow}
    (h : Evaluation task s t use e flow) :
    e ∈ task.code ∧ t.scope.enclosing = task.around s.toSurroundings := by
  cases h with
  | initializer _ he => exact ⟨Option.mem_toList.mpr he, rfl⟩
  | expression line e => exact ⟨List.mem_singleton_self _, rfl⟩
  | returned line e _ => exact ⟨List.mem_singleton_self _, rfl⟩
  | discarded line e _ => exact ⟨List.mem_singleton_self _, rfl⟩
  | field he _ => exact ⟨Option.mem_toList.mpr he, rfl⟩

/-! ## The class around an expression -/

/-- The script of a class is there and declares the slots of its fields, unless it was replaced. -/
def Session.Lists (t : Session) (info : ClassInfo) : Prop :=
  t.Twice (classScript info.name) ∨
    ∃ rest, t.scripts[classScript info.name]? = some (declarations (info.fields.map (·.2)) ++ rest)

section Belonging

variable {T : DeclTable} {sts : List Stmt} {context : String} {c : ClassDecl} {info : ClassInfo}
  {s t : Session}

theorem Session.Lists.mono (h : s.Lists info) (hretains : Retains s t) : t.Lists info := by
  rcases h with htwice | ⟨rest, hrest⟩
  · exact .inl (htwice.mono hretains.warnings)
  · rcases hretains.scripts _ _ hrest with hkept | htwice
    · exact .inr ⟨rest, hkept⟩
    · exact .inl htwice

theorem Runs.lists_fields {scope : ClassScope} {ms : List Member} {line : Nat} {log : List Event}
    {out : Emitted Flow} (h : Runs (.fieldsScript info scope ms line) s log out t) : t.Lists info := by
  cases h with
  | idle h => cases h
  | seq hsplit _ _ => cases hsplit
  | inside hinside _ => cases hinside
  | evaluates htask _ => cases htask
  | @script _ _ t _ _ out hopens hrun =>
    cases hopens with
    | fields =>
      have hslots : info.fields.map Prod.snd <+: t.allocator.preamble := hrun.grows.preamble
      obtain ⟨more, hmore⟩ := hslots
      refine .inr ⟨declarations more ++ [] ++ out.commands, ?_⟩
      rw [Session.getElem?_stored, ← hmore]
      simp only [declarations, List.map_append, List.append_assoc]

/-- Lowering the members of a class stores the script of the class. -/
theorem Runs.lists {scope : ClassScope} {ms : List Member} {line : Nat} {log : List Event}
    {out : Emitted Flow} (h : Runs (.members info scope ms line) s log out t) : t.Lists info := by
  obtain ⟨_, _, _, _, u, rfl, hfields, hbodies⟩ := h.parts rfl rfl
  exact hfields.lists_fields.mono hbodies.grows.toRetains

/-- An expression with surroundings `q` stands in the class: the class is around it and offers its
members, and at the end `t` the class is known and has its script. -/
structure StandsIn (context : String) (q : Surroundings) (e : Expr) (c : ClassDecl) (info : ClassInfo)
    (t : Session) : Prop where
  code : e ∈ c.code
  scope : q.scope.enclosing = some ⟨info.name, c.parent⟩
  offers : q.symbols.OffersClass context info c
  recorded : t.decls.class? c.id = some info
  lists : t.Lists info

theorem StandsIn.mono {q : Surroundings} {e : Expr} {u : Session} (h : StandsIn context q e c info t)
    (hsub : t.decls.Sub u.decls) (hretains : Retains t u) : StandsIn context q e c info u where
  code := h.code
  scope := h.scope
  offers := h.offers
  recorded := hsub.classInfo h.recorded
  lists := h.lists.mono hretains

/-- The statements that the work begins with. -/
def Task.heads : Task → List Stmt
  | .stmts body => body
  | .stmt st => [st]
  | _ => []

/-- The classes that the work begins with are offered if they are declared. -/
def Task.Offered (task : Task) (context : String) (q : Surroundings) : Prop :=
  ∀ c, .classDef c ∈ task.heads → ∀ info, q.decls.class? c.id = some info →
    q.symbols.OffersClass context info c

namespace Task.Offered

variable {task : Task} {q : Surroundings}

/-- Nothing is declared of what stands inside a body. -/
theorem of_free {body : List Stmt} (h : ∀ i ∈ declIds body, q.decls[i]? = none) :
    (Task.stmts body).Offered context q := by
  intro c hc info hinfo
  rw [DeclTable.class?_none (h c.id (mem_declIds_of_class hc))] at hinfo
  cases hinfo

theorem of_nil (h : task.heads = []) : task.Offered context q := by
  intro c hc
  rw [h] at hc
  exact absurd hc List.not_mem_nil

theorem first {first rest : Task} (hsplit : task.split = some (first, rest))
    (h : task.Offered context q) : first.Offered context q := by
  cases Task.splits hsplit with
  | stmts st others =>
    intro c hc
    obtain rfl := List.mem_singleton.mp hc
    exact h c List.mem_cons_self
  | _ => exact of_nil rfl

theorem inside {inner : Task} (hinside : task.inside = some inner) (hfit : task.Fit q.decls) :
    inner.Offered context q := by
  cases Task.encloses hinside with
  | block => exact of_free hfit.ready.inner
  | bindings => exact of_nil rfl

theorem script {s : Session} {script : Script} (hopens : Opens task s script)
    (hfit : task.Fit s.decls) :
    script.body.Offered context (s.opened script.scope script.slots).toSurroundings := by
  cases hopens with
  | callable => exact of_free hfit.ready.inner
  | fields => exact of_nil rfl

end Task.Offered

/-- What is left of the work finds its classes as the whole work found them. -/
theorem Runs.offered_rest {task first rest : Task} {log : List Event} {out : Emitted Flow}
    (hsplit : task.split = some (first, rest)) (h : Runs first s log out t) (hfit : task.Fit s.decls)
    (hend : t.decls.Sub T) (hapart : MembersApart T sts) (hpart : task.PartOf T (.stmts sts))
    (hoffered : task.Offered context s.toSurroundings) : rest.Offered context t.toSurroundings := by
  have hfirst : first.PartOf T (.stmts sts) := (Task.PartOf.split hsplit).1.trans hpart
  cases Task.splits hsplit with
  | stmts st others =>
    intro c hin info hinfo
    have hcin : c ∈ stmtClasses sts := hpart.classes (mem_stmtClasses (List.mem_cons_of_mem _ hin))
    have hinfo' : s.decls.class? c.id = some info := (h.class?_behind hfit hin).symm.trans hinfo
    have hoffers := hoffered c (List.mem_cons_of_mem _ hin) info hinfo'
    exact (h.keeps_offers (hfit.first hsplit) hend hapart hfirst hcin hinfo' hoffers).1
  | _ => exact .of_nil rfl

/-- **Code stands in the class around it.**  Of an expression that is lowered on the way, the class
around it is the one around the work, or it stands in a class inside the work, which offers its members
there. -/
theorem Runs.belongs {task : Task} {log : List Event} {out : Emitted Flow} (h : Runs task s log out t)
    (hfit : task.Fit s.decls) (hend : t.decls.Sub T) (hapart : MembersApart T sts)
    (hpart : task.PartOf T (.stmts sts)) (hframe : s.frame = some context)
    (hoffered : task.Offered context s.toSurroundings) :
    ∀ q e, .lowers q e ∈ log →
      (e ∈ task.code ∧ q.scope.enclosing = task.around s.toSurroundings) ∨
        ∃ c ∈ task.classes, ∃ info, StandsIn context q e c info t := by
  induction h with
  | idle h => exact fun q e hin => absurd hin List.not_mem_nil
  | @seq task first rest s t u log log' commands out hsplit hfirst hrest ihfirst ihrest =>
    obtain ⟨hhead, htail⟩ := Task.PartOf.split (T := T) hsplit
    obtain ⟨hcode, hcode'⟩ := Task.split_code hsplit
    obtain ⟨hunit, hscope⟩ := hfirst.place_eq
    obtain ⟨haround, haround'⟩ := Task.split_around hscope hsplit
    have hfit' := hfit.rest hsplit hfirst
    have hsub := hrest.sub hfit'
    have hframe' : t.frame = some context := (Surroundings.frame_congr hunit).trans hframe
    have hoffered' := hfirst.offered_rest hsplit hfit (hsub.trans hend) hapart hpart hoffered
    intro q e hin
    rcases List.mem_append.mp hin with hin | hin
    · rcases ihfirst (hfit.first hsplit) (hsub.trans hend) (hhead.trans hpart) hframe
        (hoffered.first hsplit) q e hin with ⟨he, hq⟩ | ⟨c, hc, info, hstands⟩
      · exact .inl ⟨hcode he, hq.trans haround⟩
      · exact .inr ⟨c, hhead.classes hc, info, hstands.mono hsub hrest.grows.toRetains⟩
    · rcases ihrest hfit' hend (htail.trans hpart) hframe' hoffered' q e hin with
        ⟨he, hq⟩ | ⟨c, hc, info, hstands⟩
      · exact .inl ⟨hcode' he, hq.trans haround'⟩
      · exact .inr ⟨c, htail.classes hc, info, hstands⟩
  | @returned st s t log commands rest hfirst ih =>
    have hhead : (Task.stmt st).PartOf T (.stmts (st :: rest)) := (Task.PartOf.split rfl).1
    obtain ⟨ws, hws⟩ := t.skipping_eq_noting rest
    rw [hws] at hend ⊢
    intro q e hin
    rcases ih (hfit.first rfl) hend (hhead.trans hpart) hframe (hoffered.first rfl) q e hin with
      ⟨he, hq⟩ | ⟨c, hc, info, hstands⟩
    · exact .inl ⟨List.mem_append_left _ he, hq⟩
    · refine .inr ⟨c, hhead.classes hc, info, ?_⟩
      exact hstands.mono (.refl _) (Grows.noting t ws).toRetains
  | @inside task inner s t log out hinside _ ih =>
    obtain ⟨hcode, haround⟩ := Task.inside_code hinside s.toSurroundings
    rw [← hcode, ← haround, ← Task.inside_classes hinside]
    exact ih (hfit.inside hinside) hend ((Task.PartOf.inside hinside).trans hpart) hframe
      (.inside hinside hfit)
  | declares _ _ s => exact fun q e hin => absurd hin List.not_mem_nil
  | evaluates htask he =>
    intro q e hin
    cases List.mem_singleton.mp hin
    exact .inl htask.mem_code
  | @function f body s t u log out hbody hdeclared hrun ih =>
    have hfit' := hfit.function hbody hdeclared f.line t.scope.enclosing []
    have hbodyPart := Task.PartOf.function (T := T) hbody f.line t.scope.enclosing []
    obtain ⟨ws, hws⟩ := t.warnedIf_eq_noting f.isAsync f.line "async function is lowered synchronously"
    rw [hws] at ih
    have huntouched := Session.Untouched.function hdeclared
    have hframe' : t.frame = some context := (Surroundings.frame_congr huntouched.unit).trans hframe
    have hcode : (Task.stmt (.function f)).code = stmtsCode body := FunctionDecl.code_of_body hbody
    have haround : (Task.stmt (.function f)).around s.toSurroundings = t.scope.enclosing :=
      congrArg LexicalScope.enclosing huntouched.scope.symm
    rw [hcode, haround]
    intro q e hin
    rcases ih hfit' hend (hbodyPart.trans hpart) hframe' (.of_nil rfl) q e hin with
      hhere | ⟨c, hc, hstands⟩
    · exact .inl hhere
    · exact .inr ⟨c, hbodyPart.classes hc, hstands⟩
  | @method info scope f isStatic body s t log out hbody _ ih =>
    have hbodyPart : (Task.callable f.id f.line (some scope) [] body).PartOf T
        (.method info scope (.method f isStatic)) := .method hbody _ _ _ _
    obtain ⟨ws, hws⟩ := s.warnedIf_eq_noting f.isAsync f.line "async method is lowered synchronously"
    rw [hws] at ih
    have hcode : (Task.method info scope (.method f isStatic)).code = stmtsCode body :=
      FunctionDecl.code_of_body hbody
    rw [hcode]
    intro q e hin
    rcases ih (hfit.method hbody _ _ _) hend (hbodyPart.trans hpart) hframe (.of_nil rfl) q e hin with
      hhere | ⟨c, hc, hstands⟩
    · exact .inl hhere
    · exact .inr ⟨c, hbodyPart.classes hc, hstands⟩
  | @classDef c info s t u log out hown hdeclared hinfo hrun ih =>
    have hfit' := hfit.classDef hdeclared hinfo ⟨info.name, c.parent⟩ c.line
    have hmembers : (Task.members info ⟨info.name, c.parent⟩ c.members c.line).PartOf T
        (.stmt (.classDef c)) := .classDef c c.line
    have hsub := hrun.sub hfit'
    have hframe' : t.frame = some context :=
      (Surroundings.frame_congr (Session.Untouched.classDef hdeclared).unit).trans hframe
    have hc : c ∈ stmtClasses sts := hpart.classes (mem_classes c)
    -- the class is offered when its members are lowered, and so it is all the way through them
    have hnames := hapart.offered_nodup hc ((hsub.trans hend).classInfo hinfo)
    have hoffers := hdeclared.offers hframe hnames (hoffered c List.mem_cons_self) hinfo
    obtain ⟨-, hthere⟩ := hrun.keeps_offers hfit' hend hapart (hmembers.trans hpart) hc hinfo hoffers
    intro q e hin
    rcases ih hfit' hend (hmembers.trans hpart) hframe' (.of_nil rfl) q e hin with
      ⟨he, hq⟩ | ⟨d, hd, hstands⟩
    · exact .inr ⟨c, mem_classes c, info, he, hq, hthere q e hin, hsub.classInfo hinfo, hrun.lists⟩
    · exact .inr ⟨d, hmembers.classes hd, hstands⟩
  | @script task s t script log out hopens hrun ih =>
    have hbodyPart := Task.PartOf.script (T := T) hopens
    obtain ⟨hcode, haround⟩ := hopens.code_subset
    have hbody := hfit.script hopens
    rw [Session.stored_decls] at hend
    intro q e hin
    rcases List.mem_append.mp hin with hin | hin
    · exact absurd hin (LexicalScope.lowers_notMem_entered _ q e)
    · rcases ih hbody hend (hbodyPart.trans hpart) hframe (.script hopens hfit) q e hin with
        ⟨he, hq⟩ | ⟨c, hc, info, hstands⟩
      · exact .inl ⟨hcode he, hq.trans haround⟩
      · refine .inr ⟨c, hbodyPart.classes hc, info, hstands.mono ?_ ?_⟩
        · rw [Session.stored_decls]
          exact .refl _
        · have hclosed : Retains t (s.closed t) := .of_scripts (List.prefix_refl _) rfl
          exact hclosed.trans (.stored _ _ _ _)
  | @constructor info scope ms line id bodyLine body s t log out hfound _ ih =>
    have hbodyPart : (Task.callable id bodyLine (some scope)
        [.invoke (s.qualify (classScript info.name))] body).PartOf T (.initializer info scope ms line) :=
      .constructor hfound _ _
    obtain ⟨f, hf, -, hbody⟩ := knownConstructor_mem hfound
    intro q e hin
    rcases ih (hfit.constructor hfound _ _) hend (hbodyPart.trans hpart) hframe (.of_nil rfl) q e hin
      with ⟨he, hq⟩ | ⟨c, hc, hstands⟩
    · refine .inl ⟨List.mem_flatMap.mpr ⟨_, hf, ?_⟩, hq⟩
      rw [Member.code, FunctionDecl.code_of_body hbody]
      exact he
    · exact .inr ⟨c, hbodyPart.classes hc, hstands⟩
  | defaulted scope line _ s => exact fun q e hin => absurd hin List.not_mem_nil

end Belonging

/-! ## What `this.name` is -/

/-- The expression is `this.name`, wrappers apart. -/
def Source.Expr.IsOwn (e : Expr) (name : String) : Prop :=
  ∃ m object mark, e.unwrapped = .member m object name ∧ object.unwrapped = .this mark

/-- `this.name` is the member with the given path and declaration: where its value is read, where it is
assigned to or updated, and where it is called.  The call ends by invoking the path. -/
structure Surroundings.ThisMember (q : Surroundings) (name path : String) (decl : Option DeclId) :
    Prop where
  value : ∀ e : Expr, e.IsOwn name → ∀ fx,
    (Lower.expr q e).run fx = (.ok ⟨[], some (.slot path)⟩, fx)
  target : ∀ e : Expr, e.IsOwn name → q.targetSlot e = .ok path
  callee : ∀ e : Expr, e.IsOwn name → Lower.namedCallee? q e = .ok (some ⟨path, decl⟩)
  call : ∀ (m : Mark) (e : Expr) (args : List Expr) (fx gx : Effects) (out : Emitted (Option Operand)),
    e.IsOwn name → (Lower.expr q (.call m e args)).run fx = (.ok out, gx) →
      ∃ before, out.commands = before ++ [.invoke path]

theorem Lower.expr_unwrapped (q : Surroundings) (e : Expr) :
    Lower.expr q e.unwrapped = Lower.expr q e := by
  fun_induction Expr.unwrapped e with
  | case1 m inner ih => rw [ih, Lower.expr]
  | case2 e _ => rfl

/-- A call of a callee that is named ends by invoking its path. -/
theorem Lower.call_invokes {q : Surroundings} {m : Mark} {e : Expr} {args : List Expr} {head : Callee}
    {fx gx : Effects} {out : Emitted (Option Operand)} (hnamed : namedCallee? q e = .ok (some head))
    (hrun : (expr q (.call m e args)).run fx = (.ok out, gx)) :
    ∃ before, out.commands = before ++ [.invoke head.path] := by
  cases lowered_of_run hrun with
  | callKnown _ hnamed' _ _ =>
    cases hnamed.symm.trans hnamed'
    exact ⟨_, rfl⟩
  | callUnknown _ hnamed' _ _ =>
    cases hnamed.symm.trans hnamed'
    exact ⟨_, rfl⟩
  | callComputed _ hnamed' _ _ => cases hnamed.symm.trans hnamed'

/-- A member of the class around the code is found by its key. -/
theorem Surroundings.ThisMember.of_lookup {q : Surroundings} {scope : ClassScope} {name : String}
    {symbol : Symbol} (hscope : q.scope.enclosing = some scope)
    (hfound : q.symbols.lookup (memberKey scope.name name) = some symbol) :
    q.ThisMember name symbol.path symbol.decl := by
  have howner : ∀ {object : Expr} {mark : Mark}, object.unwrapped = .this mark →
      q.memberOwner? object = .ok (some scope.name) := by
    intro object mark hthis
    rw [memberOwner?, hthis]
    dsimp only
    rw [enclosingClass, hscope]
    rfl
  have hslot : ∀ {object : Expr} {mark : Mark}, object.unwrapped = .this mark →
      q.memberSlot object name = .ok symbol.path := by
    intro object mark hthis
    rw [memberSlot, howner hthis]
    show q.ownedSlot scope.name object name = _
    rw [ownedSlot, hfound]
  have hnamed : ∀ e : Expr, e.IsOwn name →
      Lower.namedCallee? q e = .ok (some ⟨symbol.path, symbol.decl⟩) := by
    rintro e ⟨m, object, mark, hroot, hthis⟩
    have hcallee : q.ownedCallee? scope.name name = some ⟨symbol.path, symbol.decl⟩ := by
      rw [ownedCallee?, hfound]
    rw [Lower.namedCallee?, hroot]
    dsimp only
    rw [methodCallee, howner hthis]
    dsimp only [bind, Except.bind, Option.bind]
    rw [hcallee]
    rfl
  refine ⟨?_, ?_, hnamed, fun m e args fx gx out he hrun => Lower.call_invokes (hnamed e he) hrun⟩
  · rintro e ⟨m, object, mark, hroot, hthis⟩ fx
    rw [← Lower.expr_unwrapped, hroot, Lower.expr, hslot hthis]
    rfl
  · rintro e ⟨m, object, mark, hroot, hthis⟩
    rw [targetSlot, hroot]
    exact hslot hthis

/-! ## Units -/

/-- The script of a class declares the slot, unless the script is reported as replaced. -/
def Compilation.Declares (c : Compilation) (info : ClassInfo) (slot : String) : Prop :=
  (∃ w ∈ c.warnings, w.message = producedTwice (classScript info.name)) ∨
    ∃ script, c.scripts[classScript info.name]? = some script ∧ slot ∈ declaredBy script

/-- `this` belongs to the class `d`: each of its properties is the slot that was minted for it, and each
of its methods with a body is its script. -/
structure Surroundings.ThisIs (q : Surroundings) (d : ClassDecl) (info : ClassInfo) (c : Compilation) :
    Prop where
  scope : q.scope.enclosing = some ⟨info.name, d.parent⟩
  name_eq : ∀ name, d.name = some name → info.name = name
  property : ∀ p, .property p ∈ d.members → ∃ n,
    info.fieldSlot? p.name = some (mintedId (methodScript info.name p.name) n) ∧
    c.Declares info (mintedId (methodScript info.name p.name) n) ∧
    q.ThisMember p.name (mintedId (methodScript info.name p.name) n) none
  method : ∀ f isStatic name, .method f isStatic ∈ d.members → f.name = some name → f.body ≠ none →
    q.ThisMember name (FrameScript.qualify c.context (methodScript info.name name)) (some f.id)

theorem Session.Lists.declares {t : Session} {info : ClassInfo} (h : t.Lists info) (context : String)
    {name slot : String} (hslot : info.fieldSlot? name = some slot) :
    Compilation.Declares ⟨context, t.scripts, t.warnings⟩ info slot := by
  rcases h with htwice | ⟨rest, hrest⟩
  · exact .inl htwice
  · refine .inr ⟨_, hrest, ?_⟩
    obtain ⟨field, hfield, rfl⟩ := Option.map_eq_some_iff.mp hslot
    rw [declaredBy_append, declaredBy_declarations]
    exact List.mem_append_left _ (List.mem_map_of_mem (List.mem_of_find?_eq_some hfield))

/-- What a class offers is what `this` has in code that stands in it. -/
theorem StandsIn.thisIs {context : String} {q : Surroundings} {e : Expr} {d : ClassDecl}
    {info : ClassInfo} {t : Session} (h : StandsIn context q e d info t) :
    q.ThisIs d info ⟨context, t.scripts, t.warnings⟩ where
  scope := h.scope
  name_eq := h.offers.name_eq
  property := by
    intro p hp
    obtain ⟨n, hslot⟩ := h.offers.members.slots p hp
    refine ⟨n, hslot, h.lists.declares context hslot, ?_⟩
    refine .of_lookup h.scope (h.offers.members.meanings _ hp
      ⟨memberKey info.name p.name, _, .field, none⟩ ?_)
    rw [Member.symbol?, hslot]
    rfl
  method := by
    intro f isStatic name hf hname hbody
    refine .of_lookup h.scope (h.offers.members.meanings _ hf
      ⟨memberKey info.name name, _, methodKind isStatic, some f.id⟩ ?_)
    rw [Member.symbol?, if_pos (Option.isSome_iff_ne_none.mpr hbody), hname]
    rfl

namespace Session

/-- **Members belong to their own class.**  In a unit whose members have keys apart, an expression that
is lowered stands outside of all classes, where there is no `this`, or in a class of the unit, the only
one of its name.  There `this.p` is the slot that was minted for the property `p` of that class, which
the script of the class declares, and `this.m(...)` invokes the script of its method `m`. -/
theorem members_belong {document : Json.Value} {fallback : String} {u : CompilationUnit}
    (hload : Document.load document fallback = .ok u) {s : Session} {c : Compilation}
    (hcompile : (s.compile u).1 = .ok c) (hapart : MembersApart (s.compile u).2.decls u.statements)
    {q : Surroundings} {e : Expr} (hlog : .lowers q e ∈ s.log u) :
    (e ∈ stmtsCode u.statements ∧ q.scope.enclosing = none) ∨
      ∃ d ∈ stmtClasses u.statements, ∃ info, (s.compile u).2.decls.class? d.id = some info ∧
        e ∈ d.code ∧ q.ThisIs d info c ∧
        ∀ d' ∈ stmtClasses u.statements, ∀ info', (s.compile u).2.decls.class? d'.id = some info' →
          info'.name = info.name → d' = d := by
  have hids := Document.load_nodup hload
  obtain ⟨out, t, hdeclared, hruns, rfl, hfinal⟩ := compile_ok hcompile
  have hfit := declared_fit hids hdeclared
  have hdecls : (s.compile u).2.decls = t.decls := by
    rw [hfinal]
    exact t.withPrimary_decls u.context out.commands
  rw [hdecls] at hapart ⊢
  have huntouched := Untouched.statements hdeclared
  have hframe : (s.declared u).frame = some u.context := Surroundings.frame_congr huntouched.unit
  have hoffered : (Task.stmts u.statements).Offered u.context (s.declared u).toSurroundings :=
    fun d hd info hinfo => hdeclared.offers rfl hids (fun i _ => s.begin_free u i) (hruns.sub hfit)
      hapart (.refl _) hd hinfo
  rcases hruns.belongs hfit (.refl _) hapart (.refl _) hframe hoffered q e hlog with
    ⟨he, hq⟩ | ⟨d, hd, info, hstands⟩
  · refine .inl ⟨he, hq.trans ?_⟩
    rw [Task.around, huntouched.scope]
    rfl
  · have hend := hstands.mono (by rw [t.withPrimary_decls]; exact .refl _)
      (t.withPrimary_retains u.context out.commands)
    refine .inr ⟨d, hd, info, hstands.recorded, hstands.code, hend.thisIs, ?_⟩
    exact fun d' hd' info' hinfo' hname => hapart.class_eq hd hd' hstands.recorded hinfo' hname

/-! Two classes whose members have the same names. -/

/-- `this.name = value` as a statement of a document. -/
def ownNode (name value : String) : Json.Value :=
  .object [("kind", .string "ExpressionStatement"), ("expression", .object [
    ("kind", .string "BinaryExpression"),
    ("left", namedNode "PropertyAccessExpression" name
      [("expression", .object [("kind", .string "ThisKeyword")])]),
    ("operator", .string "="),
    ("right", .object [("kind", .string "NumericLiteral"), ("value", .string value)])])]

/-- `class name { property; m() { this.property = 1 } }` -/
def classNode (name property : String) : Json.Value :=
  namedNode "ClassDeclaration" name [("members", .array [
    namedNode "PropertyDeclaration" property [],
    namedNode "MethodDeclaration" "m" [("body", .array [ownNode property "1"])]])]

/-- `class A { p; m() { this.p = 1 } } class B { p; m() { this.p = 1 } }` -/
def twinDocument : Json.Value :=
  .object [("statements", .array [classNode "A" "p", classNode "B" "p"])]

/-- One of the two classes. -/
def twinClass (id : DeclId) (name : String) : ClassDecl :=
  ⟨id + 1, some name, none, false, false, [
    .property ⟨"p", none, false, 0⟩,
    .method ⟨id, some "m", [], some [.expression 0 (.binary ⟨0, none⟩
      (.member ⟨0, none⟩ (.this ⟨0, none⟩) "p") .assign (.number ⟨0, none⟩ (.ofInt 1)))], false, 0⟩
      false], 0⟩

/-- The unit of that document. -/
def twinUnit : CompilationUnit where
  fileName := "main.ts"
  context := "main"
  statements := [.classDef (twinClass 0 "A"), .classDef (twinClass 2 "B")]
  declCount := 4

/-- An expression is lowered with the class around it. -/
def loweredIn (scope : ClassScope) : Event → Bool
  | .lowers q _ => q.scope.enclosing = some scope
  | .hoists _ => false

theorem members_belong_twins :
    ∃ c q e, Document.load twinDocument "main.ts" = .ok twinUnit ∧ (compile {} twinUnit).1 = .ok c ∧
      .lowers q e ∈ log {} twinUnit ∧ q.scope.enclosing = some ⟨"B", none⟩ ∧
      q.ThisMember "p" "B_p_2" none ∧ q.ThisMember "m" "main/B_m" (some 2) := by
  have hload : Document.load twinDocument "main.ts" = .ok twinUnit := rfl
  obtain ⟨c, hc⟩ : ∃ c, (compile {} twinUnit).1 = .ok c := exists_compilation (by decide +kernel)
  have hcontext : (compile {} twinUnit).1.toOption.map (·.context) = some "main" := by decide +kernel
  have hslot : ((compile {} twinUnit).2.decls.class? 3).bind (·.fieldSlot? "p") = some "B_p_2" := by
    decide +kernel
  have hapart : MembersApart (compile {} twinUnit).2.decls twinUnit.statements :=
    ⟨by decide +kernel, by decide +kernel, by decide +kernel⟩
  have hany : (log {} twinUnit).any (loweredIn ⟨"B", none⟩) = true := by decide +kernel
  obtain ⟨event, hlog, hin⟩ := List.any_eq_true.mp hany
  cases event with
  | hoists id => cases hin
  | lowers q e =>
    have hscope : q.scope.enclosing = some ⟨"B", none⟩ := of_decide_eq_true hin
    refine ⟨c, q, e, hload, hc, hlog, hscope, ?_⟩
    rcases members_belong hload hc hapart hlog with ⟨-, hnone⟩ | ⟨d, hd, info, hinfo, -, hthis, -⟩
    · rw [hscope] at hnone
      cases hnone
    · have hname : info.name = "B" :=
        congrArg ClassScope.name (Option.some.inj (hthis.scope.symm.trans hscope))
      have hclasses : d = twinClass 0 "A" ∨ d = twinClass 2 "B" := by
        simpa [twinUnit, stmtClasses, Stmt.classes, ClassDecl.classes, memberClasses, Member.classes,
          FunctionDecl.classes, twinClass] using hd
      rcases hclasses with rfl | rfl
      · exact absurd ((hthis.name_eq "A" rfl).symm.trans hname) (by decide)
      · obtain ⟨n, hp, -, hproperty⟩ := hthis.property ⟨"p", none, false, 0⟩ List.mem_cons_self
        have hmethod := hthis.method _ false "m" (List.mem_cons_of_mem _ List.mem_cons_self) rfl (Option.some_ne_none _)
        rw [show (twinClass 2 "B").id = 3 from rfl] at hinfo
        rw [hinfo, Option.bind_some, hp] at hslot
        rw [Option.some.inj hslot] at hproperty
        rw [hc] at hcontext
        rw [hname, show c.context = "main" from Option.some.inj hcontext] at hmethod
        exact ⟨hproperty, hmethod⟩

/-! Units in which a member is missed. -/

section Mixed

/-- What the statements of a unit are called, as written, with the members of the classes. -/
def outline (sts : List Stmt) : List (Option String × List String) :=
  sts.map fun
    | .classDef c => (c.name, c.offered)
    | .function f => (f.name, [])
    | _ => (none, [])

/-- The unit of the document has these statements and binds these names, and it compiles to scripts with
the given ones among them. -/
def Yields (document : Json.Value) (statements : List (Option String × List String))
    (names : List String) (scripts : List (String × List Command)) : Prop :=
  ∃ u c, Document.load document "main.ts" = .ok u ∧ (compile {} u).1 = .ok c ∧
    outline u.statements = statements ∧
    stmtsBound (compile {} u).2.decls u.statements = names ∧
    ∀ script ∈ scripts, c.scripts[script.1]? = some script.2

/-- `Yields`, as a check that can be run. -/
def yields (document : Json.Value) (statements : List (Option String × List String))
    (names : List String) (scripts : List (String × List Command)) : Bool :=
  match Document.load document "main.ts" with
  | .error _ => false
  | .ok u =>
    match (compile {} u).1 with
    | .error _ => false
    | .ok c =>
      decide (outline u.statements = statements) &&
        decide (stmtsBound (compile {} u).2.decls u.statements = names) &&
        scripts.all fun script => c.scripts[script.1]? = some script.2

theorem yields_sound {document : Json.Value} {statements : List (Option String × List String)}
    {names : List String} {scripts : List (String × List Command)}
    (h : yields document statements names scripts = true) :
    Yields document statements names scripts := by
  rw [yields] at h
  split at h
  · cases h
  · next u hload =>
    split at h
    · cases h
    · next c hc =>
      simp only [Bool.and_eq_true, List.all_eq_true, decide_eq_true_eq] at h
      obtain ⟨⟨houtline, hnames⟩, hscripts⟩ := h
      exact ⟨u, c, hload, hc, houtline, hnames, hscripts⟩

/-- `class A { Bx; m() { this.Bx = 1 } } class AB { x; m() { this.x = 1 } }` -/
def sharedKeyDocument : Json.Value :=
  .object [("statements", .array [classNode "A" "Bx", classNode "AB" "x"])]

/-- `class TS { _2; m() { this._2 = 1 } } function () {}` -/
def mintedKeyDocument : Json.Value :=
  .object [("statements", .array [classNode "TS" "_2",
    .object [("kind", .string "FunctionDeclaration"), ("body", .array [])]])]

/-- `class A { p; m() { this.p = 1 } } function ACLASS() {}` -/
def replacedDocument : Json.Value :=
  .object [("statements", .array [classNode "A" "p",
    namedNode "FunctionDeclaration" "ACLASS" [("body", .array [])]])]

/-- The script of a method that writes `1` to the slot. -/
def writesOne (slot : String) : List Command :=
  [.declare "register1", .set (some "main") "register1" "1",
    .operation (some "main") slot .assign "register1"]

/-- **A member may be missed** although all classes have distinct names, so have the members of each, and
nothing is named like a class and a member put together.  Another class may have a member of the same
key, a function without a name may get the key for its name, and the script of the class may be replaced
by that of a function. -/
theorem members_mixed :
    Yields sharedKeyDocument [(some "A", ["Bx", "m"]), (some "AB", ["x", "m"])] ["A", "AB"]
      [("ACLASS", [.declare "A_Bx_1"]), ("A_m", writesOne "AB_x_2")] ∧
    Yields mintedKeyDocument [(some "TS", ["_2", "m"]), (none, [])] ["TS", "TS_2"]
      [("TSCLASS", [.declare "TS__2_1"]), ("TS_m", writesOne "main/TS_2")] ∧
    Yields replacedDocument [(some "A", ["p", "m"]), (some "ACLASS", [])] ["A", "ACLASS"]
      [("A_m", writesOne "A_p_1"), ("ACLASS", [])] := by
  refine ⟨yields_sound ?_, yields_sound ?_, yields_sound ?_⟩
  all_goals decide +kernel

end Mixed

end Session

end FrameScript
