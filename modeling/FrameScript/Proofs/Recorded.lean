/-
  What is reached is recorded.

  Lowering passes over a body if it finds no record of its callable, over a class if it finds none of
  the class, and over a constructor that is not the recorded one.  All of this happens in silence.  It
  never happens to what a unit declares, for three reasons:

  1. a function or class of the unit finds a record of its own under its id (`Task.Fit`);
  2. a method has a name, and members with names are recorded with the class (`MethodsNamed`);
  3. the constructor that is recorded for a class is its last one (`ClassDecl.Known`).

  `Task.Recorded` says that for a piece of work.  It holds of a unit that was declared, and it passes
  from work to its parts.
-/
import FrameScript.Proofs.Documents
import FrameScript.Proofs.Keys
import FrameScript.Proofs.Outlook
import FrameScript.Proofs.Units

namespace FrameScript

open Source

/-! ## The last constructor -/

/-- The last constructor with a body, as its id, line and body. -/
def lastConstructor : List Member → Option (DeclId × Nat × List Stmt)
  | [] => none
  | .constructor ⟨id, _, _, body, _, line⟩ :: rest =>
    (lastConstructor rest).or (body.map fun body => (id, line, body))
  | _ :: rest => lastConstructor rest

/-- A constructor with a body. -/
def Source.Member.isConstructor : Member → Bool
  | .constructor f => f.body.isSome
  | _ => false

theorem lastConstructor_isSome (ms : List Member) :
    (lastConstructor ms).isSome = ms.any Member.isConstructor := by
  fun_induction lastConstructor ms with
  | case1 => rfl
  | case2 id name params body isAsync line rest ih =>
    rw [Option.isSome_or, ih, Option.isSome_map, List.any_cons, Bool.or_comm]
    rfl
  | case3 m rest hm ih =>
    rw [ih, List.any_cons]
    cases m with
    | constructor f =>
      obtain ⟨id, name, params, body, isAsync, line⟩ := f
      exact (hm id name params body isAsync line rfl).elim
    | _ => rfl

theorem lastConstructor_mem {ms : List Member} {x : DeclId × Nat × List Stmt}
    (h : lastConstructor ms = some x) : ∃ f, .constructor f ∈ ms ∧ f.id = x.1 := by
  fun_induction lastConstructor ms with
  | case1 => cases h
  | case2 id name params body isAsync line rest ih =>
    rcases Option.or_eq_some_iff.mp h with h | ⟨-, h⟩
    · obtain ⟨f, hf, hid⟩ := ih h
      exact ⟨f, List.mem_cons_of_mem _ hf, hid⟩
    · obtain ⟨_, -, rfl⟩ := Option.map_eq_some_iff.mp h
      exact ⟨_, List.mem_cons_self, rfl⟩
  | case3 m rest _ ih =>
    obtain ⟨f, hf, hid⟩ := ih h
    exact ⟨f, List.mem_cons_of_mem _ hf, hid⟩

/-- Of several constructors the last one stays recorded. -/
theorem MembersDeclared.constructor_eq {info info' : ClassInfo} {s t : Session} {ms : List Member}
    (h : MembersDeclared info s ms info' t) :
    info'.constructor = ((lastConstructor ms).map (·.1)).or info.constructor := by
  induction h with
  | nil info s => rfl
  | @cons info info' info'' s t u m rest hfirst _ ih =>
    rw [ih]
    cases hfirst with
    | @constructor f k hbody _ =>
      obtain ⟨id, name, params, body, isAsync, line⟩ := f
      obtain ⟨body, rfl⟩ := Option.ne_none_iff_exists'.mp hbody
      rw [lastConstructor]
      cases lastConstructor rest <;> rfl
    | method isStatic k _ _ _ => rfl
    | property p => rfl
    | nothing _ _ hconstructor _ =>
      cases m with
      | constructor f =>
        obtain ⟨id, name, params, body, isAsync, line⟩ := f
        obtain rfl : body = none := hconstructor _ rfl
        rw [lastConstructor]
        cases lastConstructor rest <;> rfl
      | _ => rfl

/-- The last constructor is recorded. -/
def ClassInfo.KnowsLast (info : ClassInfo) (ms : List Member) : Prop :=
  info.constructor = (lastConstructor ms).map (·.1)

/-- The constructor that is lowered for a class is then its last one. -/
theorem ClassInfo.KnowsLast.eq {info : ClassInfo} {ms : List Member} (h : info.KnowsLast ms)
    (hnodup : (ms.flatMap Member.constructorIds).Nodup) :
    knownConstructor info ms = lastConstructor ms := by
  unfold ClassInfo.KnowsLast at h
  fun_induction lastConstructor ms with
  | case1 => rfl
  | case2 id name params body isAsync line rest ih =>
    rw [List.flatMap_cons] at hnodup
    obtain ⟨-, hnodup', hdisjoint⟩ := List.nodup_append'.mp hnodup
    rw [knownConstructor]
    cases hlast : lastConstructor rest with
    | some x =>
      -- the one that is recorded stands further on, under another id
      rw [hlast] at h ih
      obtain ⟨f, hf, hid⟩ := lastConstructor_mem hlast
      have hne : info.constructor ≠ some id := by
        intro heq
        have hsame : x.1 = id := Option.some.inj (h.symm.trans heq)
        refine hdisjoint (FunctionDecl.id_mem_declIds _) (List.mem_flatMap.mpr ⟨_, hf, ?_⟩)
        show id ∈ f.declIds
        rw [← hsame, ← hid]
        exact f.id_mem_declIds
      rw [if_neg hne]
      exact ih h hnodup'
    | none =>
      rw [hlast] at h ih
      cases body with
      | some body =>
        have heq : info.constructor = some id := h
        rw [if_pos heq]
        rfl
      | none =>
        have hne : info.constructor ≠ some id := by rw [h]; exact nofun
        rw [if_neg hne]
        exact ih h hnodup'
  | case3 m rest hm ih =>
    rw [List.flatMap_cons] at hnodup
    obtain ⟨-, hnodup', -⟩ := List.nodup_append'.mp hnodup
    cases m with
    | constructor f =>
      obtain ⟨id, name, params, body, isAsync, line⟩ := f
      exact (hm id name params body isAsync line rfl).elim
    | _ => exact ih h hnodup'

/-! ## Classes with their constructors -/

/-- If anything is recorded about the class, its last constructor is. -/
def Source.ClassDecl.Known (c : ClassDecl) (t : DeclTable) : Prop :=
  ∀ info, t.class? c.id = some info → info.KnowsLast c.members

theorem Source.ClassDecl.Known.congr {c : ClassDecl} {t t' : DeclTable} (h : c.Known t)
    (heq : t'[c.id]? = t[c.id]?) : c.Known t' := by
  intro info hinfo
  rw [DeclTable.class?_congr heq] at hinfo
  exact h info hinfo

theorem Source.ClassDecl.known_of_free {c : ClassDecl} {t : DeclTable} (h : t[c.id]? = none) :
    c.Known t := by
  intro info hinfo
  rw [DeclTable.class?_none h] at hinfo
  cases hinfo

theorem ClassDeclared.knows {s t : Session} {c : ClassDecl} (h : ClassDeclared s c t)
    (hknown : c.Known s.decls) : c.Known t.decls := by
  cases h with
  | known _ => exact hknown
  | @fresh info u _ _ hmembers =>
    intro info' hinfo'
    rw [Session.recorded_class] at hinfo'
    cases hinfo'
    exact hmembers.constructor_eq.trans Option.or_none

theorem UnitDeclared.knows {s t : Session} {sts : List Stmt} (h : UnitDeclared s sts t)
    (hnodup : (declIds sts).Nodup) (hfree : ∀ i ∈ declIds sts, s.decls[i]? = none) {c : ClassDecl}
    (hc : .classDef c ∈ sts) : c.Known t.decls := by
  induction h with
  | nil s => exact absurd hc List.not_mem_nil
  | @cons s t u st rest hfirst hrest ih =>
    rw [declIds] at hnodup hfree
    obtain ⟨-, hnodup', hdisjoint⟩ := List.nodup_append'.mp hnodup
    rcases List.mem_cons.mp hc with rfl | hc
    · have hid : c.id ∈ (Stmt.classDef c).declIds := by
        rw [Stmt.declIds, c.declIds_eq]
        exact List.mem_cons_self
      have hbefore : c.Known s.decls := ClassDecl.known_of_free (hfree _ (List.mem_append_left _ hid))
      refine ClassDecl.Known.congr ?_ (hrest.decls_eq fun hin => hdisjoint hid hin)
      cases hfirst with
      | classDef hdeclared => exact hdeclared.knows hbefore
      | nothing _ => exact hbefore
    · refine ih hnodup' (fun i hi => ?_) hc
      rw [hfirst.decls_eq fun hin => hdisjoint hin hi]
      exact hfree i (List.mem_append_right _ hi)

/-! ## Work that finds its records -/

/-- What the work looks for is in the table, or will be when it gets there. -/
def Task.Known : Task → DeclTable → Prop
  | .stmts body, t => ∀ c, .classDef c ∈ body → c.Known t
  | .stmt (.classDef c), t => c.Known t
  | .callable id .., t => ∃ k, t.callable? id = some k
  | .members info _ ms _, _ | .bodies info _ ms _, _ => info.KnowsLast ms ∧ MethodsNamed ms
  | .initializer info _ ms _, _ => info.KnowsLast ms
  | .methods _ _ ms, _ => MethodsNamed ms
  | .method _ _ (.method f _), _ => f.name ≠ none
  | _, _ => True

/-- The work fits the table and finds there what it looks for; its classes are among the given ones. -/
structure Task.Recorded (classes : List ClassDecl) (task : Task) (t : DeclTable) : Prop
    extends task.Fit t where
  classes : task.classes ⊆ classes
  known : task.Known t

namespace Task.Recorded

variable {classes : List ClassDecl} {task : Task} {s t : Session}

/-- Statements about which nothing is recorded yet will find what they record themselves. -/
theorem of_free {body : List Stmt} (hfit : (Task.stmts body).Fit s.decls)
    (hclasses : stmtClasses body ⊆ classes) (hfree : ∀ i ∈ declIds body, s.decls[i]? = none) :
    (Task.stmts body).Recorded classes s.decls where
  toFit := hfit
  classes := hclasses
  known := fun _ hc => ClassDecl.known_of_free (hfree _ (mem_declIds_of_class hc))

theorem first {first rest : Task} (hsplit : task.split = some (first, rest))
    (h : task.Recorded classes s.decls) : first.Recorded classes s.decls where
  toFit := h.toFit.first hsplit
  classes := List.Subset.trans (Task.split_classes hsplit).1 h.classes
  known := by
    have hknown := h.known
    cases Task.splits hsplit with
    | stmts st others =>
      cases st with
      | classDef c => exact hknown c List.mem_cons_self
      | _ => exact trivial
    | bodies => exact hknown.1
    | methods info scope m others =>
      cases m with
      | method f isStatic => exact hknown f isStatic List.mem_cons_self
      | _ => exact trivial
    | _ => exact trivial

theorem rest {first rest : Task} {log : List Event} {out : Emitted Flow}
    (hsplit : task.split = some (first, rest)) (h : task.Recorded classes s.decls)
    (hfirst : Runs first s log out t) : rest.Recorded classes t.decls where
  toFit := h.toFit.rest hsplit hfirst
  classes := List.Subset.trans (Task.split_classes hsplit).2 h.classes
  known := by
    have hknown := h.known
    have hnodup := h.nodup
    cases Task.splits hsplit with
    | stmts st others =>
      intro c hc
      obtain ⟨-, -, hdisjoint⟩ := List.nodup_append'.mp hnodup
      refine (hknown c (List.mem_cons_of_mem _ hc)).congr (hfirst.decls_eq fun hin => ?_)
      exact hdisjoint hin (mem_declIds_of_class hc)
    | members => exact hknown
    | bodies => exact hknown.2
    | methods info scope m others =>
      exact fun f isStatic hf => hknown f isStatic (List.mem_cons_of_mem _ hf)
    | _ => exact trivial

theorem inside {inner : Task} (hinside : task.inside = some inner)
    (h : task.Recorded classes s.decls) : inner.Recorded classes s.decls := by
  have hclasses := Task.inside_classes hinside ▸ h.classes
  have hfit := h.toFit.inside hinside
  cases Task.encloses hinside with
  | block => exact of_free hfit hclasses h.ready.inner
  | bindings => exact ⟨hfit, hclasses, trivial⟩

theorem function {f : FunctionDecl} {body : List Stmt} (hbody : f.body = some body)
    (hdeclared : FunctionDeclared s f t) (h : (Task.stmt (.function f)).Recorded classes s.decls)
    (line : Nat) (enclosing : Option ClassScope) (prologue : List Command) :
    (Task.callable f.id line enclosing prologue body).Recorded classes t.decls := by
  have hfit := h.toFit.function hbody hdeclared line enclosing prologue
  refine ⟨hfit, List.Subset.trans (PartOf.function (T := ∅) hbody _ _ _).classes h.classes, ?_⟩
  exact hdeclared.callable (by rw [hbody]; exact Option.some_ne_none _) hfit.ready.filed

theorem method {info : ClassInfo} {scope : ClassScope} {f : FunctionDecl} {isStatic : Bool}
    {body : List Stmt} (hbody : f.body = some body)
    (h : (Task.method info scope (.method f isStatic)).Recorded classes s.decls) (line : Nat)
    (enclosing : Option ClassScope) (prologue : List Command) :
    (Task.callable f.id line enclosing prologue body).Recorded classes s.decls := by
  refine ⟨h.toFit.method hbody line enclosing prologue,
    List.Subset.trans (PartOf.method (T := ∅) hbody _ _ _ _).classes h.classes, ?_⟩
  -- a method with a body and a name was recorded with its class
  have hfiled : (Member.method f isStatic).Filed info.name s.decls := h.ready.filed
  obtain ⟨name, hname⟩ := Option.ne_none_iff_exists'.mp h.known
  have hheld := hfiled f.id List.mem_cons_self
  rw [Member.script?, hbody, hname] at hheld
  obtain ⟨k, hk, -⟩ := hheld
  exact ⟨k, hk⟩

theorem classDef {c : ClassDecl} {info : ClassInfo} (hnamed : Document.AllNamed classes)
    (hdeclared : ClassDeclared s c t) (hinfo : t.decls.class? c.id = some info)
    (h : (Task.stmt (.classDef c)).Recorded classes s.decls) (scope : ClassScope) (line : Nat) :
    (Task.members info scope c.members line).Recorded classes t.decls where
  toFit := h.toFit.classDef hdeclared hinfo scope line
  classes := List.Subset.trans (PartOf.classDef (T := ∅) c line).classes h.classes
  known := ⟨hdeclared.knows h.known info hinfo, hnamed c (h.classes (mem_classes c))⟩

theorem script {script : Script} (hopens : Opens task s script) (h : task.Recorded classes s.decls) :
    script.body.Recorded classes s.decls := by
  have hfit := h.toFit.script hopens
  have hclasses := List.Subset.trans (PartOf.script (T := ∅) hopens).classes h.classes
  cases hopens with
  | callable _ line enclosing prologue body => exact of_free hfit hclasses h.ready.inner
  | fields info scope ms line => exact ⟨hfit, hclasses, trivial⟩

theorem constructor {info : ClassInfo} {scope : ClassScope} {ms : List Member} {line : Nat}
    {id : DeclId} {bodyLine : Nat} {body : List Stmt}
    (hfound : knownConstructor info ms = some (id, bodyLine, body))
    (h : (Task.initializer info scope ms line).Recorded classes s.decls)
    (enclosing : Option ClassScope) (prologue : List Command) :
    (Task.callable id bodyLine enclosing prologue body).Recorded classes s.decls := by
  refine ⟨h.toFit.constructor hfound enclosing prologue,
    List.Subset.trans (PartOf.constructor (T := ∅) hfound _ _).classes h.classes, ?_⟩
  obtain ⟨f, hf, rfl, hbody⟩ := knownConstructor_mem hfound
  obtain ⟨k, hk, -⟩ := h.toFit.constructor_script hf (by rw [hbody]; exact Option.some_ne_none _)
  exact ⟨k, hk⟩

/-- The constructor that is lowered for a class is its last one. -/
theorem knownConstructor_eq {info : ClassInfo} {scope : ClassScope} {ms : List Member} {line : Nat}
    (h : (Task.initializer info scope ms line).Recorded classes s.decls) :
    knownConstructor info ms = lastConstructor ms := h.known.eq h.nodup

/-- What is recorded under the id of a class is the class. -/
theorem class_ne_none {c : ClassDecl} (h : (Task.stmt (.classDef c)).Recorded classes s.decls)
    (hcontains : s.decls.contains c.id = true) : s.decls.class? c.id ≠ none := by
  have hfiled : c.Filed s.decls := h.ready.filed
  rcases hfiled with hfree | ⟨-, info, hinfo, -⟩
  · rw [Std.TreeMap.contains_eq_isSome_getElem?, hfree _ List.mem_cons_self] at hcontains
    cases hcontains
  · rw [hinfo]
    exact Option.some_ne_none info

/-- A callable that is to be lowered is there. -/
theorem callable_ne_none {id : DeclId} {line : Nat} {enclosing : Option ClassScope}
    {prologue : List Command} {body : List Stmt}
    (h : (Task.callable id line enclosing prologue body).Recorded classes s.decls) :
    s.decls.callable? id ≠ none := by
  obtain ⟨k, hk⟩ := h.known
  rw [hk]
  exact Option.some_ne_none k

end Task.Recorded

/-- **A unit that was declared finds its records.** -/
theorem Session.declared_recorded {s : Session} {u : CompilationUnit}
    (hids : (declIds u.statements).Nodup)
    (h : UnitDeclared (s.begin u) u.statements (s.declared u)) :
    (Task.stmts u.statements).Recorded (stmtClasses u.statements) (s.declared u).decls where
  toFit := declared_fit hids h
  classes := List.Subset.refl _
  known := fun _ hc => h.knows hids (fun i _ => s.begin_free u i) hc

end FrameScript
