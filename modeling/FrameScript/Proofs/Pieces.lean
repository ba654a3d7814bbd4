/-
  Runs inside of runs.

  A run is made of the runs that its rule is about: those of the two parts of some work, of the body of
  a function, of the members of a class.  `Piece` is a run by its ends, `Piece.Premise` leads from one
  to those that its rule is about, and `Session.Does` says that a piece is done while a unit is
  compiled, however deep it lies.

  A piece finds the tables fit for its work, what it records and stores is there in the end, and its
  events are events of the unit (`Piece.Sound`, `Session.Does.inherits`).

  Blocks are no scopes, and a declaration of many variables is as good as many declarations: what is
  done in a body is a row of steps, cut off where the body returns (`Piece.DoneIn`, `Runs.steps`).
-/
import FrameScript.Proofs.Keys
import Mathlib.Logic.Relation

namespace FrameScript

open Source

/-- A run, by its ends. -/
structure Piece where
  task : Task
  start : Session
  log : List Event
  out : Emitted Flow
  finish : Session

namespace Piece

/-- From a run to those that its rule is about. -/
inductive Premise : Piece → Piece → Prop where
  | first {task first rest : Task} {s t u : Session} {log log' : List Event} {commands : List Command}
      {out : Emitted Flow} (hsplit : task.split = some (first, rest))
      (hfirst : Runs first s log ⟨commands, .next⟩ t) (hrest : Runs rest t log' out u) :
      Premise ⟨task, s, log ++ log', ⟨commands ++ out.commands, out.value⟩, u⟩
        ⟨first, s, log, ⟨commands, .next⟩, t⟩
  | rest {task first rest : Task} {s t u : Session} {log log' : List Event} {commands : List Command}
      {out : Emitted Flow} (hsplit : task.split = some (first, rest))
      (hfirst : Runs first s log ⟨commands, .next⟩ t) (hrest : Runs rest t log' out u) :
      Premise ⟨task, s, log ++ log', ⟨commands ++ out.commands, out.value⟩, u⟩ ⟨rest, t, log', out, u⟩
  | returned {st : Stmt} {s t : Session} {log : List Event} {commands : List Command} (rest : List Stmt)
      (hfirst : Runs (.stmt st) s log ⟨commands, .returned⟩ t) :
      Premise ⟨.stmts (st :: rest), s, log, ⟨commands, .returned⟩, t.skipping rest⟩
        ⟨.stmt st, s, log, ⟨commands, .returned⟩, t⟩
  | inside {task inner : Task} {s t : Session} {log : List Event} {out : Emitted Flow}
      (hinside : task.inside = some inner) (h : Runs inner s log out t) :
      Premise ⟨task, s, log, out, t⟩ ⟨inner, s, log, out, t⟩
  | function {f : FunctionDecl} {body : List Stmt} {s t u : Session} {log : List Event}
      {out : Emitted Flow} (hbody : f.body = some body) (hdeclared : FunctionDeclared s f t)
      (h : Runs (.callable f.id f.line t.scope.enclosing [] body)
        (t.warnedIf f.isAsync f.line "async function is lowered synchronously") log out u) :
      Premise ⟨.stmt (.function f), s, log, ⟨[], .next⟩, u⟩
        ⟨.callable f.id f.line t.scope.enclosing [] body,
          t.warnedIf f.isAsync f.line "async function is lowered synchronously", log, out, u⟩
  | method {info : ClassInfo} {scope : ClassScope} {f : FunctionDecl} {isStatic : Bool}
      {body : List Stmt} {s t : Session} {log : List Event} {out : Emitted Flow}
      (hbody : f.body = some body)
      (h : Runs (.callable f.id f.line (some scope) [] body)
        (s.warnedIf f.isAsync f.line "async method is lowered synchronously") log out t) :
      Premise ⟨.method info scope (.method f isStatic), s, log, ⟨[], .next⟩, t⟩
        ⟨.callable f.id f.line (some scope) [] body,
          s.warnedIf f.isAsync f.line "async method is lowered synchronously", log, out, t⟩
  | classDef {c : ClassDecl} {info : ClassInfo} {s t u : Session} {log : List Event}
      {out : Emitted Flow} (hown : (c.isDeclared || c.isAbstract) = false)
      (hdeclared : ClassDeclared s c t) (hinfo : t.decls.class? c.id = some info)
      (h : Runs (.members info ⟨info.name, c.parent⟩ c.members c.line) t log out u) :
      Premise ⟨.stmt (.classDef c), s, log, ⟨[], .next⟩, u⟩
        ⟨.members info ⟨info.name, c.parent⟩ c.members c.line, t, log, out, u⟩
  | script {task : Task} {s t : Session} {script : Script} {log : List Event} {out : Emitted Flow}
      (hopens : Opens task s script)
      (h : Runs script.body (s.opened script.scope script.slots) log out t) :
      Premise
        ⟨task, s, script.scope.entered ++ log, ⟨[], .next⟩, (s.closed t).stored script.name
          (declarations t.allocator.preamble ++ script.prologue ++ out.commands) script.line⟩
        ⟨script.body, s.opened script.scope script.slots, log, out, t⟩
  | constructor {info : ClassInfo} {scope : ClassScope} {ms : List Member} {line : Nat} {id : DeclId}
      {bodyLine : Nat} {body : List Stmt} {s t : Session} {log : List Event} {out : Emitted Flow}
      (hfound : knownConstructor info ms = some (id, bodyLine, body))
      (h : Runs (.callable id bodyLine (some scope)
        [.invoke (s.qualify (classScript info.name))] body) s log out t) :
      Premise ⟨.initializer info scope ms line, s, log, ⟨[], .next⟩, t⟩
        ⟨.callable id bodyLine (some scope) [.invoke (s.qualify (classScript info.name))] body,
          s, log, out, t⟩

/-- A piece of the work on a unit that ends with `e` and has the given log. -/
structure Sound (u : CompilationUnit) (log : List Event) (e : Session) (p : Piece) : Prop where
  run : Runs p.task p.start p.log p.out p.finish
  fit : p.task.Fit p.start.decls
  partOf : p.task.PartOf e.decls (.stmts u.statements)
  frame_eq : p.start.frame = some u.context
  sub : p.finish.decls.Sub e.decls
  retains : Retains p.finish e
  events : p.log ⊆ log

variable {u : CompilationUnit} {log : List Event} {e : Session} {p p' : Piece}

/-- What a run is about is part of the same work. -/
theorem Premise.sound (h : Premise p p') (hp : p.Sound u log e) : p'.Sound u log e := by
  obtain ⟨-, hfit, hpart, hframe, hsub, hretains, hevents⟩ := hp
  cases h with
  | first hsplit hfirst hrest =>
    exact ⟨hfirst, hfit.first hsplit, (Task.PartOf.split hsplit).1.trans hpart, hframe,
      (hrest.sub (hfit.rest hsplit hfirst)).trans hsub, hrest.grows.toRetains.trans hretains,
      List.Subset.trans (List.subset_append_left _ _) hevents⟩
  | rest hsplit hfirst hrest =>
    exact ⟨hrest, hfit.rest hsplit hfirst, (Task.PartOf.split hsplit).2.trans hpart,
      (Surroundings.frame_congr hfirst.place_eq.1).trans hframe, hsub, hretains,
      List.Subset.trans (List.subset_append_right _ _) hevents⟩
  | @returned st s t log commands rest hfirst =>
    obtain ⟨ws, hws⟩ := t.skipping_eq_noting rest
    rw [hws] at hsub hretains
    exact ⟨hfirst, hfit.first rfl, (Task.PartOf.split rfl).1.trans hpart, hframe, hsub,
      (Grows.noting t ws).toRetains.trans hretains, hevents⟩
  | inside hinside h =>
    exact ⟨h, hfit.inside hinside, (Task.PartOf.inside hinside).trans hpart, hframe, hsub, hretains,
      hevents⟩
  | @function f body s t u log out hbody hdeclared h =>
    have hframe' : t.frame = _ :=
      (Surroundings.frame_congr (Session.Untouched.function hdeclared).unit).trans hframe
    have hfit' := hfit.function hbody hdeclared f.line t.scope.enclosing []
    obtain ⟨ws, hws⟩ := t.warnedIf_eq_noting f.isAsync f.line "async function is lowered synchronously"
    rw [hws] at h ⊢
    exact ⟨h, hfit', (Task.PartOf.function hbody _ _ _).trans hpart, hframe', hsub, hretains, hevents⟩
  | @method info scope f isStatic body s t log out hbody h =>
    obtain ⟨ws, hws⟩ := s.warnedIf_eq_noting f.isAsync f.line "async method is lowered synchronously"
    rw [hws] at h ⊢
    exact ⟨h, hfit.method hbody _ _ _, (Task.PartOf.method hbody _ _ _ _).trans hpart, hframe, hsub,
      hretains, hevents⟩
  | @classDef c info s t u log out hown hdeclared hinfo h =>
    exact ⟨h, hfit.classDef hdeclared hinfo _ _, (Task.PartOf.classDef c c.line).trans hpart,
      (Surroundings.frame_congr (Session.Untouched.classDef hdeclared).unit).trans hframe, hsub,
      hretains, hevents⟩
  | @script task s t script log out hopens h =>
    rw [Session.stored_decls] at hsub
    have hclosed : Retains t (s.closed t) := .of_scripts (List.prefix_refl _) rfl
    have hfit' := hfit.script hopens
    exact ⟨h, hfit', (Task.PartOf.script hopens).trans hpart, hframe, hsub,
      (hclosed.trans (.stored _ _ _ _)).trans hretains,
      List.Subset.trans (List.subset_append_right _ _) hevents⟩
  | constructor hfound h =>
    exact ⟨h, hfit.constructor hfound _ _, (Task.PartOf.constructor hfound _ _).trans hpart, hframe,
      hsub, hretains, hevents⟩

theorem Sound.part (hp : p.Sound u log e) (h : Relation.ReflTransGen Premise p p') : p'.Sound u log e := by
  induction h with
  | refl => exact hp
  | tail _ hpremise ih => exact hpremise.sound ih

end Piece

namespace Session

/-- The work on a unit that compiles. -/
structure Lowers (s : Session) (u : CompilationUnit) (out : Emitted Flow) (t : Session) : Prop where
  run : Runs (.stmts u.statements) (s.declared u) (s.log u) out t
  result : (s.compile u).1 = .ok ⟨u.context, (t.withPrimary u.context out.commands).scripts,
    (t.withPrimary u.context out.commands).warnings⟩
  after : (s.compile u).2 = { t.withPrimary u.context out.commands with unit := none, warnings := [] }

/-- The piece is done while the unit is compiled, which succeeds. -/
def Does (s : Session) (u : CompilationUnit) (p : Piece) : Prop :=
  ∃ out t, s.Lowers u out t ∧
    Relation.ReflTransGen Piece.Premise ⟨.stmts u.statements, s.declared u, s.log u, out, t⟩ p

variable {s t : Session} {u : CompilationUnit} {out : Emitted Flow} {c : Compilation}

theorem exists_lowers (hcompile : (s.compile u).1 = .ok c) : ∃ out t, s.Lowers u out t := by
  obtain ⟨out, t, -, hruns, hc, hafter⟩ := compile_ok hcompile
  exact ⟨out, t, hruns, hc ▸ hcompile, hafter⟩

namespace Lowers

variable (h : s.Lowers u out t)

include h

theorem declared : UnitDeclared (s.begin u) u.statements (s.declared u) := by
  obtain ⟨_, _, hdeclared, -, -, -⟩ := compile_ok h.result
  exact hdeclared

theorem decls_eq : (s.compile u).2.decls = t.decls := by
  rw [h.after]
  exact t.withPrimary_decls u.context out.commands

/-- The whole work on a unit. -/
theorem sound (hids : (declIds u.statements).Nodup) :
    Piece.Sound u (s.log u) t ⟨.stmts u.statements, s.declared u, s.log u, out, t⟩ where
  run := h.run
  fit := declared_fit hids h.declared
  partOf := .refl _
  frame_eq := Surroundings.frame_congr (Untouched.statements h.declared).unit
  sub := .refl _
  retains := .of_scripts (List.prefix_refl _) rfl
  events := List.Subset.refl _

end Lowers

/-- **What the whole work on a unit has, its pieces inherit**, and all of them are part of it. -/
theorem Does.inherits {J : Session → Piece → Prop} {p : Piece} (h : s.Does u p)
    (hids : (declIds u.statements).Nodup)
    (hstart : ∀ out t, s.Lowers u out t → J t ⟨.stmts u.statements, s.declared u, s.log u, out, t⟩)
    (hstep : ∀ t p p', p.Sound u (s.log u) t → p.Premise p' → J t p → J t p') :
    ∃ out t, s.Lowers u out t ∧ p.Sound u (s.log u) t ∧ J t p := by
  obtain ⟨out, t, hlowers, hpieces⟩ := h
  refine ⟨out, t, hlowers, ?_⟩
  induction hpieces with
  | refl => exact ⟨hlowers.sound hids, hstart out t hlowers⟩
  | tail _ hpremise ih =>
    obtain ⟨hsound, hJ⟩ := ih
    exact ⟨hpremise.sound hsound, hstep t _ _ hsound hpremise hJ⟩

end Session

/-- The work on a single statement is that statement's. -/
theorem Piece.Premise.single (st : Stmt) {s t : Session} {log : List Event} {out : Emitted Flow}
    (h : Runs (.stmts [st]) s log out t) :
    ∃ out' m, Piece.Premise ⟨.stmts [st], s, log, out, t⟩ ⟨.stmt st, s, log, out', m⟩ := by
  cases h with
  | idle h => cases h
  | @seq _ _ _ _ m _ log₁ log₂ commands out hsplit hfirst hrest =>
    cases hsplit
    -- nothing is lowered behind it
    have hnone : log₂ = [] := by
      cases hrest with
      | idle _ => rfl
      | seq hsplit _ _ => cases hsplit
      | inside hinside _ => cases hinside
      | evaluates htask _ => cases htask
      | script hopens _ => cases hopens
    subst hnone
    have hsplit : (Task.stmts [st]).split = some (.stmt st, .stmts []) := rfl
    have hpremise := Piece.Premise.first hsplit hfirst hrest
    rw [List.append_nil] at hpremise ⊢
    exact ⟨_, _, hpremise⟩
  | returned _ hfirst => exact ⟨_, _, .returned [] hfirst⟩
  | inside hinside _ => cases hinside
  | evaluates htask _ => cases htask
  | script hopens _ => cases hopens

/-- The work on a function with a body is that on its body. -/
theorem Piece.Premise.calls {f : FunctionDecl} {body : List Stmt} {s t : Session} {log : List Event}
    {out : Emitted Flow} {k : Callable} (h : Runs (.stmt (.function f)) s log out t)
    (hbody : f.body = some body) (hk : s.decls.callable? f.id = some k) :
    ∃ enclosing s' out', Piece.Premise ⟨.stmt (.function f), s, log, out, t⟩
      ⟨.callable f.id f.line enclosing [] body, s', log, out', t⟩ ∧ s'.decls.callable? f.id = some k := by
  cases h with
  | idle h =>
    cases h with
    | signature hnone => cases hnone.symm.trans hbody
  | seq hsplit _ _ => cases hsplit
  | inside hinside _ => cases hinside
  | evaluates htask _ => cases htask
  | script hopens _ => cases hopens
  | @function _ body' _ m _ log out hbody' hdeclared hrun =>
    obtain rfl := Option.some.inj (hbody.symm.trans hbody')
    refine ⟨_, _, _, .function hbody hdeclared hrun, ?_⟩
    rw [Session.warnedIf_decls]
    exact hdeclared.sub.callable hk

/-! ## The steps of a body -/

mutual

/-- The work that a statement consists of.  A block has no scope of its own, so its statements stand for
it; variables that are declared together come one by one. -/
def Source.Stmt.steps : Stmt → List Task
  | .block _ body => stmtsSteps body
  | .bindings _ ds => ds.map .declarator
  | st => [.stmt st]

/-- The work that some statements consist of. -/
def Source.stmtsSteps : List Stmt → List Task
  | [] => []
  | st :: rest => st.steps ++ stmtsSteps rest

end

def Task.steps : Task → List Task
  | .stmts body => stmtsSteps body
  | .stmt st => st.steps
  | .declarators ds => ds.map .declarator
  | task => [task]

/-- Pieces that follow each other. -/
inductive Linked : Session → List Piece → Session → Prop where
  | nil (s : Session) : Linked s [] s
  | cons {p : Piece} {ps : List Piece} {s t : Session} (hstart : p.start = s) (h : Linked p.finish ps t) :
      Linked s (p :: ps) t

namespace Linked

variable {ps qs : List Piece} {s m t : Session}

theorem append (h : Linked s ps m) (h' : Linked m qs t) : Linked s (ps ++ qs) t := by
  induction h with
  | nil => exact h'
  | cons hstart _ ih => exact .cons hstart (ih h')

theorem split (h : Linked s (ps ++ qs) t) : ∃ m, Linked s ps m ∧ Linked m qs t := by
  induction ps generalizing s with
  | nil => exact ⟨s, .nil s, h⟩
  | cons p ps ih =>
    cases h with
    | cons hstart h =>
      obtain ⟨m, hps, hqs⟩ := ih h
      exact ⟨m, .cons hstart hps, hqs⟩

/-- What every piece keeps, all of them keep. -/
theorem keeps {I : Session → Prop} (h : Linked s ps t) (hstep : ∀ p ∈ ps, I p.start → I p.finish)
    (hs : I s) : I t := by
  induction h with
  | nil => exact hs
  | cons hstart _ ih =>
    subst hstart
    exact ih (fun p hp => hstep p (List.mem_cons_of_mem _ hp)) (hstep _ List.mem_cons_self hs)

end Linked

namespace Piece

/-- The piece is done in these steps, one after the other, up to the first one that returns.  What is
skipped behind it is worth a warning, and no step. -/
structure DoneIn (p : Piece) (ps : List Piece) (m : Session) : Prop where
  linked : Linked p.start ps m
  preamble_eq : p.finish.allocator.preamble = m.allocator.preamble
  log_eq : p.log = ps.flatMap (·.log)
  parts : ∀ q ∈ ps, Relation.ReflTransGen Premise p q
  front : ps.map (·.task) <+: p.task.steps
  all : p.out.value = .next → p.finish = m ∧ ps.map (·.task) = p.task.steps

namespace DoneIn

variable {p q : Piece} {ps qs : List Piece} {m n : Session}

theorem single (h : p.task.steps = [p.task]) : p.DoneIn [p] p.finish where
  linked := .cons rfl (.nil _)
  preamble_eq := rfl
  log_eq := (List.flatMap_singleton _ p).symm
  parts := fun q hq => by
    obtain rfl := List.mem_singleton.mp hq
    exact .refl
  front := h ▸ List.prefix_refl _
  all := fun _ => ⟨rfl, h.symm⟩

/-- Nothing to do. -/
theorem none (h : p.task.steps = []) (hlog : p.log = []) (hfinish : p.finish = p.start) :
    p.DoneIn [] p.start where
  linked := .nil _
  preamble_eq := by rw [hfinish]
  log_eq := hlog
  parts := fun q hq => absurd hq List.not_mem_nil
  front := List.nil_prefix
  all := fun _ => ⟨hfinish, h.symm⟩

/-- A piece that is about another one and has its steps. -/
theorem inner (h : q.DoneIn ps m) (hpremise : Premise p q) (hstart : q.start = p.start)
    (hfinish : q.finish = p.finish) (hlog : q.log = p.log) (hout : q.out = p.out)
    (hsteps : q.task.steps = p.task.steps) : p.DoneIn ps m where
  linked := hstart ▸ h.linked
  preamble_eq := hfinish ▸ h.preamble_eq
  log_eq := hlog ▸ h.log_eq
  parts := fun r hr => .head hpremise (h.parts r hr)
  front := hsteps ▸ h.front
  all := fun hvalue => by
    rw [← hfinish, ← hsteps]
    exact h.all (hout ▸ hvalue)

/-- Work in two parts has the steps of both. -/
theorem seq {task first rest : Task} {s t u : Session} {log log' : List Event} {commands : List Command}
    {out : Emitted Flow} (hsplit : task.split = some (first, rest))
    (hfirst : Runs first s log ⟨commands, .next⟩ t) (hrest : Runs rest t log' out u)
    (hsteps : task.steps = first.steps ++ rest.steps)
    (h : DoneIn ⟨first, s, log, ⟨commands, .next⟩, t⟩ ps m) (h' : DoneIn ⟨rest, t, log', out, u⟩ qs n) :
    DoneIn ⟨task, s, log ++ log', ⟨commands ++ out.commands, out.value⟩, u⟩ (ps ++ qs) n := by
  obtain ⟨hmeet, htasks⟩ := h.all rfl
  obtain rfl : t = m := hmeet
  have htasks' : ps.map (·.task) = first.steps := htasks
  refine ⟨h.linked.append h'.linked, h'.preamble_eq, ?_, fun q hq => ?_, ?_, fun hvalue => ?_⟩
  · rw [List.flatMap_append, ← h.log_eq, ← h'.log_eq]
  · rcases List.mem_append.mp hq with hq | hq
    · exact .head (.first hsplit hfirst hrest) (h.parts q hq)
    · exact .head (.rest hsplit hfirst hrest) (h'.parts q hq)
  · rw [List.map_append, htasks', hsteps]
    exact (List.prefix_append_right_inj _).mpr h'.front
  · obtain ⟨hfinish, hall⟩ := h'.all hvalue
    refine ⟨hfinish, ?_⟩
    rw [List.map_append, htasks', hsteps]
    exact congrArg (first.steps ++ ·) hall

end DoneIn

end Piece

/-- **A run goes through the steps of its work.** -/
theorem Runs.steps {task : Task} {s t : Session} {log : List Event} {out : Emitted Flow}
    (h : Runs task s log out t) : ∃ ps m, Piece.DoneIn ⟨task, s, log, out, t⟩ ps m := by
  induction h with
  | idle h =>
    cases h with
    | noStmts => exact ⟨_, _, .none rfl rfl rfl⟩
    | noDeclarators => exact ⟨_, _, .none rfl rfl rfl⟩
    | _ => exact ⟨_, _, .single rfl⟩
  | seq hsplit hfirst hrest ihfirst ihrest =>
    obtain ⟨ps, m, hps⟩ := ihfirst
    obtain ⟨qs, n, hqs⟩ := ihrest
    cases Task.splits hsplit with
    | stmts st rest => exact ⟨_, _, .seq hsplit hfirst hrest rfl hps hqs⟩
    | declarators d rest => exact ⟨_, _, .seq hsplit hfirst hrest rfl hps hqs⟩
    | _ => exact ⟨_, _, .single rfl⟩
  | @returned st s t log commands rest hfirst ih =>
    obtain ⟨ps, m, hps⟩ := ih
    obtain ⟨ws, hws⟩ := t.skipping_eq_noting rest
    refine ⟨ps, m, hps.linked, ?_, hps.log_eq, fun q hq => .head (.returned rest hfirst) (hps.parts q hq),
      hps.front.trans (List.prefix_append _ _), fun hvalue => nomatch hvalue⟩
    rw [hws]
    exact hps.preamble_eq
  | inside hinside h ih =>
    obtain ⟨ps, m, hps⟩ := ih
    cases Task.encloses hinside with
    | block => exact ⟨ps, m, hps.inner (.inside hinside h) rfl rfl rfl rfl rfl⟩
    | bindings => exact ⟨ps, m, hps.inner (.inside hinside h) rfl rfl rfl rfl rfl⟩
  | evaluates htask _ => cases htask <;> exact ⟨_, _, .single rfl⟩
  | script hopens _ _ => cases hopens <;> exact ⟨_, _, .single rfl⟩
  | _ => exact ⟨_, _, .single rfl⟩

end FrameScript
