/-
  A record is written once.

  Callers copy what is recorded about a callable, some before its body is lowered and some after, so
  a record must not change while a unit is lowered.  A function is recorded only where nothing is
  recorded yet; the members of a class are recorded without looking.  What saves them is that
  a class is declared once and its members have ids of their own: when the class is declared, nothing
  stands under them.

  `Filed` says that what stands under the id of a declaration, if anything, is what was recorded for
  it.  `Task.Ready` says what is known when a piece of work begins: the declarations that were met are
  filed, and the ids inside bodies are free.  Under it work only adds to the table (`Runs.sub`), and
  after a unit was declared its statements are ready (`UnitDeclared.ready`).
-/
import FrameScript.Proofs.Tables

namespace FrameScript

open Source

/-- The later table has all records of the earlier one. -/
def DeclTable.Sub (t t' : DeclTable) : Prop := ∀ (i : DeclId) (d : Declaration), t[i]? = some d →
  t'[i]? = some d

namespace DeclTable.Sub

variable {t t' t'' : DeclTable}

theorem refl (t : DeclTable) : t.Sub t := fun _ _ h => h

theorem trans (h : t.Sub t') (h' : t'.Sub t'') : t.Sub t'' := fun i d hd => h' i d (h i d hd)

theorem callable (h : t.Sub t') {i : DeclId} {k : Callable} (hk : t.callable? i = some k) :
    t'.callable? i = some k := by
  unfold DeclTable.callable? at hk ⊢
  split at hk
  · next k' hk' => rw [h i _ hk', ← hk]
  · cases hk

theorem classInfo (h : t.Sub t') {i : DeclId} {info : ClassInfo} (hi : t.class? i = some info) :
    t'.class? i = some info := by
  unfold DeclTable.class? at hi ⊢
  split at hi
  · next info' hinfo' => rw [h i _ hinfo', ← hi]
  · cases hi

/-- A record under a free id. -/
theorem recorded {s : Session} {i : DeclId} (h : s.decls[i]? = none) (d : Declaration) :
    s.decls.Sub (s.recorded i d).decls := by
  intro j e he
  have hne : j ≠ i := by
    rintro rfl
    rw [h] at he
    cases he
  rw [Session.recorded_other _ _ hne, he]

end DeclTable.Sub

/-! ## Free ids -/

/-- The ids inside the body of a constructor. -/
def Source.Member.constructorInner : Member → List DeclId
  | .constructor f => bodyIds f.body
  | _ => []

/-- The ids inside the body of a method. -/
def Source.Member.methodInner : Member → List DeclId
  | .method f _ => bodyIds f.body
  | _ => []

/-- The ids inside a class are those of its members and those inside their bodies. -/
theorem memberIds_perm_own (ms : List Member) :
    (memberIds ms).Perm (ms.flatMap Member.ownIds ++
      (ms.flatMap Member.constructorInner ++ ms.flatMap Member.methodInner)) := by
  refine List.perm_iff_count.mpr fun i => ?_
  induction ms with
  | nil => rfl
  | cons m rest ih =>
    have hmember : m.declIds = m.ownIds ++ m.constructorInner ++ m.methodInner := by
      cases m with
      | method f isStatic => exact f.declIds_eq
      | constructor f =>
        rw [Member.declIds, f.declIds_eq]
        exact (List.append_nil _).symm
      | property p => rfl
      | other line kind => rfl
    simp only [memberIds, hmember, List.flatMap_cons, List.count_append] at ih ⊢
    omega

/-- The ids inside the bodies of a statement, where declaring does not look. -/
def Source.Stmt.innerIds : Stmt → List DeclId
  | .block _ body => Source.declIds body
  | .function f => bodyIds f.body
  | .classDef c => c.members.flatMap Member.constructorInner ++ c.members.flatMap Member.methodInner
  | _ => []

/-- The ids inside bodies that are still to be lowered. -/
def Task.inner : Task → List DeclId
  | .stmts body => body.flatMap Stmt.innerIds
  | .stmt st => st.innerIds
  | .callable _ _ _ _ body => declIds body
  | .members _ _ ms _ | .bodies _ _ ms _ =>
    ms.flatMap Member.constructorInner ++ ms.flatMap Member.methodInner
  | .initializer _ _ ms _ => ms.flatMap Member.constructorInner
  | .methods _ _ ms => ms.flatMap Member.methodInner
  | .method _ _ m => m.methodInner
  | .declarators _ | .declarator _ | .fieldsScript .. | .fields .. | .field .. => []

/-! ## Filed declarations -/

/-- The script of a member of a class; a signature and a property have none. -/
def Source.Member.script? (className : String) : Member → Option String
  | .method f _ => if f.body.isSome then f.name.map (methodScript className) else none
  | .constructor f => if f.body.isSome then some (initScript className) else none
  | .property _ | .other .. => none

/-- A callable with the given script is recorded, or nothing if there is no script. -/
def DeclTable.Holds (t : DeclTable) (id : DeclId) : Option String → Prop
  | some script => ∃ k, t.callable? id = some k ∧ k.script = script
  | none => t[id]? = none

/-- The member is recorded as one of a class with the given name. -/
def Source.Member.Filed (m : Member) (className : String) (t : DeclTable) : Prop :=
  ∀ i ∈ m.ownIds, t.Holds i (m.script? className)

/-- Nothing is recorded for the class and its members, or the class and all of its members. -/
def Source.ClassDecl.Filed (c : ClassDecl) (t : DeclTable) : Prop :=
  (∀ i ∈ c.id :: c.members.flatMap Member.ownIds, t[i]? = none) ∨
    (c.isDeclared || c.isAbstract) = false ∧
      ∃ info, t.class? c.id = some info ∧ ∀ m ∈ c.members, m.Filed info.name t

/-- What is recorded for a declaration is of its kind, and nothing is recorded for a signature. -/
def Source.Stmt.Filed : Stmt → DeclTable → Prop
  | .function f, t => t.class? f.id = none ∧ (f.body = none → t[f.id]? = none)
  | .classDef c, t => c.Filed t
  | _, _ => True

/-- What is recorded for the declarations that were met before the work begins. -/
def Task.Filed : Task → DeclTable → Prop
  | .stmts body, t => ∀ st ∈ body, st.Filed t
  | .stmt st, t => st.Filed t
  | .callable id .., t => t.class? id = none
  | .members info _ ms _, t | .bodies info _ ms _, t => ∀ m ∈ ms, m.Filed info.name t
  | .initializer info _ ms _, t => ∀ f, .constructor f ∈ ms → (Member.constructor f).Filed info.name t
  | .methods info _ ms, t =>
    ∀ f isStatic, .method f isStatic ∈ ms → (Member.method f isStatic).Filed info.name t
  | .method info _ (.method f isStatic), t => (Member.method f isStatic).Filed info.name t
  | _, _ => True

/-- When the work begins the declarations that were met are filed, and nothing is recorded for what
stands inside bodies. -/
structure Task.Ready (task : Task) (t : DeclTable) : Prop where
  inner : ∀ i ∈ task.inner, t[i]? = none
  filed : task.Filed t

theorem DeclTable.class?_congr {t t' : DeclTable} {i : DeclId} (h : t'[i]? = t[i]?) :
    t'.class? i = t.class? i := by
  rw [DeclTable.class?, DeclTable.class?, h]

theorem DeclTable.callable?_congr {t t' : DeclTable} {i : DeclId} (h : t'[i]? = t[i]?) :
    t'.callable? i = t.callable? i := by
  rw [DeclTable.callable?, DeclTable.callable?, h]

theorem DeclTable.class?_none {t : DeclTable} {i : DeclId} (h : t[i]? = none) : t.class? i = none := by
  rw [DeclTable.class?, h]

theorem DeclTable.callable?_none {t : DeclTable} {i : DeclId} (h : t[i]? = none) :
    t.callable? i = none := by
  rw [DeclTable.callable?, h]

/-- What is recorded as a class is no callable. -/
theorem DeclTable.callable?_of_class {t : DeclTable} {i : DeclId} {info : ClassInfo}
    (h : t.class? i = some info) : t.callable? i = none := by
  unfold DeclTable.class? at h
  split at h
  · next hclass => rw [DeclTable.callable?, hclass]
  · cases h

/-- What is recorded as a callable is no class. -/
theorem DeclTable.class?_of_callable {t : DeclTable} {i : DeclId} {k : Callable}
    (h : t.callable? i = some k) : t.class? i = none := by
  unfold DeclTable.callable? at h
  split at h
  · next hcallable => rw [DeclTable.class?, hcallable]
  · cases h

theorem DeclTable.Holds.congr {t t' : DeclTable} {i : DeclId} {script : Option String}
    (h : t.Holds i script) (heq : t'[i]? = t[i]?) : t'.Holds i script := by
  cases script with
  | none => exact heq.trans h
  | some script =>
    obtain ⟨k, hk, hscript⟩ := h
    exact ⟨k, (callable?_congr heq).trans hk, hscript⟩

/-- What is held is no class. -/
theorem DeclTable.Holds.class?_eq {t : DeclTable} {i : DeclId} {script : Option String}
    (h : t.Holds i script) : t.class? i = none := by
  cases script with
  | none => exact class?_none h
  | some script =>
    obtain ⟨k, hk, -⟩ := h
    exact class?_of_callable hk

theorem Source.Member.Filed.congr {m : Member} {className : String} {t t' : DeclTable}
    (h : m.Filed className t) (heq : ∀ i ∈ m.ownIds, t'[i]? = t[i]?) : m.Filed className t' :=
  fun i hi => (h i hi).congr (heq i hi)

theorem Source.ClassDecl.Filed.congr {c : ClassDecl} {t t' : DeclTable} (h : c.Filed t)
    (heq : ∀ i ∈ c.id :: c.members.flatMap Member.ownIds, t'[i]? = t[i]?) : c.Filed t' := by
  rcases h with hfree | ⟨hown, info, hinfo, hmembers⟩
  · exact .inl fun i hi => (heq i hi).trans (hfree i hi)
  · refine .inr ⟨hown, info, (DeclTable.class?_congr (heq _ List.mem_cons_self)).trans hinfo, ?_⟩
    intro m hm
    refine (hmembers m hm).congr fun i hi => heq i (List.mem_cons_of_mem _ ?_)
    exact List.mem_flatMap.mpr ⟨m, hm, hi⟩

theorem Source.Stmt.Filed.congr {st : Stmt} {t t' : DeclTable} (h : st.Filed t)
    (heq : ∀ i ∈ st.declIds, t'[i]? = t[i]?) : st.Filed t' := by
  cases st with
  | function f =>
    have hid := heq _ f.id_mem_declIds
    exact ⟨(DeclTable.class?_congr hid).trans h.1, fun hbody => hid.trans (h.2 hbody)⟩
  | classDef c => exact ClassDecl.Filed.congr h fun i hi => heq i (c.ownIds_subset hi)
  | _ => exact trivial

/-- A declaration about which nothing is recorded is filed. -/
theorem Source.Stmt.filed_of_free {st : Stmt} {t : DeclTable} (h : ∀ i ∈ st.declIds, t[i]? = none) :
    st.Filed t := by
  cases st with
  | function f =>
    have hid := h _ f.id_mem_declIds
    exact ⟨DeclTable.class?_none hid, fun _ => hid⟩
  | classDef c => exact .inl fun i hi => h i (c.ownIds_subset hi)
  | _ => exact trivial

/-! ## Work that is ready -/

theorem Source.Stmt.innerIds_subset (st : Stmt) : st.innerIds ⊆ st.declIds := by
  cases st with
  | block line body => exact List.Subset.refl _
  | function f =>
    rw [Stmt.declIds, f.declIds_eq]
    exact List.subset_cons_self _ _
  | classDef c =>
    rw [Stmt.declIds, c.declIds_eq]
    refine List.Subset.trans ?_ (List.subset_cons_self _ _)
    intro i hi
    exact (memberIds_perm_own c.members).mem_iff.mpr (List.mem_append_right _ hi)
  | _ => exact List.nil_subset _

theorem mem_declIds {sts : List Stmt} {st : Stmt} {i : DeclId} (hst : st ∈ sts)
    (hi : i ∈ st.declIds) : i ∈ declIds sts := by
  induction sts with
  | nil => exact absurd hst List.not_mem_nil
  | cons first rest ih =>
    rw [declIds]
    rcases List.mem_cons.mp hst with rfl | hst
    · exact List.mem_append_left _ hi
    · exact List.mem_append_right _ (ih hst)

theorem Task.inner_subset (task : Task) : task.inner ⊆ task.ids := by
  cases task with
  | stmts body =>
    intro i hi
    obtain ⟨st, hst, hi⟩ := List.mem_flatMap.mp hi
    exact mem_declIds hst (st.innerIds_subset hi)
  | stmt st => exact st.innerIds_subset
  | callable id line enclosing prologue body => exact List.subset_cons_self _ _
  | members info scope ms line =>
    exact fun i hi => (memberIds_perm_own ms).mem_iff.mpr (List.mem_append_right _ hi)
  | bodies info scope ms line =>
    exact fun i hi => (memberIds_perm_own ms).mem_iff.mpr (List.mem_append_right _ hi)
  | initializer info scope ms line =>
    intro i hi
    obtain ⟨m, hm, hi⟩ := List.mem_flatMap.mp hi
    refine List.mem_flatMap.mpr ⟨m, hm, ?_⟩
    cases m with
    | constructor f =>
      rw [Member.constructorIds, f.declIds_eq]
      exact List.mem_cons_of_mem _ hi
    | _ => exact absurd hi List.not_mem_nil
  | methods info scope ms =>
    intro i hi
    obtain ⟨m, hm, hi⟩ := List.mem_flatMap.mp hi
    refine List.mem_flatMap.mpr ⟨m, hm, ?_⟩
    cases m with
    | method f isStatic =>
      rw [Member.methodIds, f.declIds_eq]
      exact List.mem_cons_of_mem _ hi
    | _ => exact absurd hi List.not_mem_nil
  | method info scope m =>
    intro i hi
    cases m with
    | method f isStatic =>
      rw [Task.ids, Member.methodIds, f.declIds_eq]
      exact List.mem_cons_of_mem _ hi
    | _ => exact absurd hi List.not_mem_nil
  | _ => exact List.nil_subset _

/-- The ids under which the work looks for what was recorded are among its own. -/
theorem Task.Filed.congr {task : Task} {t t' : DeclTable} (h : task.Filed t)
    (heq : ∀ i ∈ task.ids, t'[i]? = t[i]?) : task.Filed t' := by
  -- all members of a class are looked up
  have hall : ∀ {name : String} {ms : List Member}, (∀ i ∈ memberIds ms, t'[i]? = t[i]?) →
      (∀ m ∈ ms, m.Filed name t) → ∀ m ∈ ms, m.Filed name t' := by
    intro name ms heq h m hm
    refine (h m hm).congr fun i hi => heq i (ownIds_subset ms ?_)
    exact List.mem_flatMap.mpr ⟨m, hm, hi⟩
  cases task with
  | stmts body => exact fun st hst => (h st hst).congr fun i hi => heq i (mem_declIds hst hi)
  | stmt st => exact Stmt.Filed.congr h heq
  | callable id line enclosing prologue body =>
    exact (DeclTable.class?_congr (heq _ List.mem_cons_self)).trans h
  | members info scope ms line => exact hall heq h
  | bodies info scope ms line => exact hall heq h
  | initializer info scope ms line =>
    intro f hf
    refine (h f hf).congr fun i hi => heq i (List.mem_flatMap.mpr ⟨_, hf, ?_⟩)
    exact Member.ownIds_subset _ hi
  | methods info scope ms =>
    intro f isStatic hf
    refine (h f isStatic hf).congr fun i hi => heq i (List.mem_flatMap.mpr ⟨_, hf, ?_⟩)
    exact Member.ownIds_subset _ hi
  | method info scope m =>
    cases m with
    | method f isStatic => exact Member.Filed.congr h fun i hi => heq i (Member.ownIds_subset _ hi)
    | _ => exact trivial
  | _ => exact trivial

namespace Task.Ready

variable {task : Task} {t t' : DeclTable}

/-- Readiness depends on the ids inside the work only. -/
theorem congr (h : task.Ready t) (heq : ∀ i ∈ task.ids, t'[i]? = t[i]?) : task.Ready t' where
  inner := fun i hi => by rw [heq i (task.inner_subset hi), h.inner i hi]
  filed := h.filed.congr heq

/-- Statements about which nothing is recorded are ready. -/
theorem of_free {body : List Stmt} (h : ∀ i ∈ declIds body, t[i]? = none) :
    (Task.stmts body).Ready t where
  inner := fun i hi => h i (Task.inner_subset (.stmts body) hi)
  filed := fun _ hst => Stmt.filed_of_free fun i hi => h i (mem_declIds hst hi)

theorem first {first rest : Task} (hsplit : task.split = some (first, rest)) (h : task.Ready t) :
    first.Ready t := by
  obtain ⟨hinner, hfiled⟩ := h
  cases Task.splits hsplit with
  | stmts st others =>
    exact ⟨fun i hi => hinner i (List.mem_append_left _ hi), hfiled st List.mem_cons_self⟩
  | bodies info scope ms line =>
    exact ⟨fun i hi => hinner i (List.mem_append_left _ hi), fun f hf => hfiled _ hf⟩
  | methods info scope m others =>
    refine ⟨fun i hi => hinner i (List.mem_append_left _ hi), ?_⟩
    cases m with
    | method f isStatic => exact hfiled f isStatic List.mem_cons_self
    | _ => exact trivial
  | _ => exact ⟨fun i hi => absurd hi List.not_mem_nil, trivial⟩

theorem rest {first rest : Task} (hsplit : task.split = some (first, rest)) (h : task.Ready t) :
    rest.Ready t := by
  obtain ⟨hinner, hfiled⟩ := h
  cases Task.splits hsplit with
  | stmts st others =>
    refine ⟨fun i hi => hinner i (List.mem_append_right _ hi), fun st' hst' => ?_⟩
    exact hfiled st' (List.mem_cons_of_mem _ hst')
  | members => exact ⟨hinner, hfiled⟩
  | bodies info scope ms line =>
    refine ⟨fun i hi => hinner i (List.mem_append_right _ hi), fun f isStatic hf => ?_⟩
    exact hfiled _ hf
  | methods info scope m others =>
    refine ⟨fun i hi => hinner i (List.mem_append_right _ hi), fun f isStatic hf => ?_⟩
    exact hfiled f isStatic (List.mem_cons_of_mem _ hf)
  | _ => exact ⟨fun i hi => absurd hi List.not_mem_nil, trivial⟩

theorem inside {inner : Task} (hinside : task.inside = some inner) (h : task.Ready t) :
    inner.Ready t := by
  cases Task.encloses hinside with
  | block => exact of_free h.inner
  | bindings => exact ⟨fun i hi => absurd hi List.not_mem_nil, trivial⟩

end Task.Ready

/-! ## Declaring adds records -/

theorem FunctionDeclared.sub {s t : Session} {f : FunctionDecl} (h : FunctionDeclared s f t) :
    s.decls.Sub t.decls := by
  cases h with
  | known _ => exact .refl _
  | fresh k hfresh _ _ =>
    have hfree : (s.named f.name).2.decls[f.id]? = none := by
      rw [s.named_decls, ← Option.isSome_eq_false_iff.trans Option.isNone_iff_eq_none,
        ← Std.TreeMap.contains_eq_isSome_getElem?]
      exact hfresh
    have hsub := DeclTable.Sub.recorded (s := (s.named f.name).2) hfree (.callable k)
    rw [s.named_decls] at hsub
    exact hsub

theorem MembersDeclared.sub {info info' : ClassInfo} {s t : Session} {ms : List Member}
    (h : MembersDeclared info s ms info' t) (hnodup : (ms.flatMap Member.ownIds).Nodup)
    (hfree : ∀ i ∈ ms.flatMap Member.ownIds, s.decls[i]? = none) : s.decls.Sub t.decls := by
  induction h with
  | nil info s => exact .refl _
  | @cons info info' info'' s t u m rest hfirst hrest ih =>
    rw [List.flatMap_cons] at hnodup hfree
    obtain ⟨-, hnodup', hdisjoint⟩ := List.nodup_append'.mp hnodup
    have hstep : s.decls.Sub t.decls := by
      cases hfirst with
      | @method f isStatic name k _ _ _ =>
        exact DeclTable.Sub.recorded (s := s) (hfree f.id (List.mem_append_left _ List.mem_cons_self)) _
      | @constructor f k _ _ =>
        exact DeclTable.Sub.recorded (s := s) (hfree f.id (List.mem_append_left _ List.mem_cons_self)) _
      | property p => exact .refl _
      | nothing _ _ _ _ => exact .refl _
    refine hstep.trans (ih hnodup' fun i hi => ?_)
    rw [hfirst.decls_eq fun hin => hdisjoint hin hi]
    exact hfree i (List.mem_append_right _ hi)

/-- What is known when a class is declared for the first time. -/
theorem Source.ClassDecl.Filed.free {c : ClassDecl} {t : DeclTable} (h : c.Filed t)
    (hfresh : t.contains c.id = false) :
    ∀ i ∈ c.id :: c.members.flatMap Member.ownIds, t[i]? = none := by
  rcases h with hfree | ⟨-, info, hinfo, -⟩
  · exact hfree
  · rw [Std.TreeMap.contains_eq_isSome_getElem?, Option.isSome_eq_false_iff,
      Option.isNone_iff_eq_none] at hfresh
    rw [DeclTable.class?_none hfresh] at hinfo
    cases hinfo

/-- The ids of a class and its members are apart. -/
theorem Source.ClassDecl.nodup_own {c : ClassDecl} (h : c.declIds.Nodup) :
    (c.id :: c.members.flatMap Member.ownIds).Nodup := by
  rw [c.declIds_eq] at h
  obtain ⟨hid, hms⟩ := List.nodup_cons.mp h
  refine List.nodup_cons.mpr ⟨fun hin => hid (FrameScript.ownIds_subset _ hin), ?_⟩
  exact (List.nodup_append'.mp ((memberIds_perm_own c.members).nodup_iff.mp hms)).1

theorem ClassDeclared.sub {s t : Session} {c : ClassDecl} (h : ClassDeclared s c t)
    (hnodup : c.declIds.Nodup) (hfiled : c.Filed s.decls) : s.decls.Sub t.decls := by
  cases h with
  | known _ => exact .refl _
  | @fresh info u _ hfresh hmembers =>
    obtain ⟨hid, hown⟩ := List.nodup_cons.mp (ClassDecl.nodup_own hnodup)
    have hfree := hfiled.free hfresh
    have hbefore : ((s.named c.name).2.registered ⟨(s.named c.name).1,
        (s.named c.name).2.qualify (s.named c.name).1, .classDef, some c.id⟩).decls = s.decls :=
      s.named_decls c.name
    have hsub := hmembers.sub hown (by rw [hbefore]; exact fun i hi => hfree i (List.mem_cons_of_mem _ hi))
    have hufree : u.decls[c.id]? = none := by
      rw [hmembers.decls_eq hid, hbefore, hfree c.id List.mem_cons_self]
    rw [hbefore] at hsub
    exact hsub.trans (DeclTable.Sub.recorded hufree _)

/-! ## Declaring files -/

theorem Session.recorded_callable (s : Session) (id : DeclId) (k : Callable) :
    (s.recorded id (.callable k)).decls.callable? id = some k := by
  rw [DeclTable.callable?, Session.recorded_self]

theorem Session.recorded_class (s : Session) (id : DeclId) (info : ClassInfo) :
    (s.recorded id (.classInfo info)).decls.class? id = some info := by
  rw [DeclTable.class?, Session.recorded_self]

theorem FunctionDeclared.filed {s t : Session} {f : FunctionDecl} (h : FunctionDeclared s f t)
    (hfiled : (Stmt.function f).Filed s.decls) : (Stmt.function f).Filed t.decls := by
  cases h with
  | known _ => exact hfiled
  | fresh k _ hbody _ =>
    refine ⟨?_, fun hnone => absurd hnone hbody⟩
    rw [DeclTable.class?, Session.withCallable, Session.recorded_self]

theorem MemberDeclared.name_eq {info info' : ClassInfo} {s t : Session} {m : Member}
    (h : MemberDeclared info s m info' t) : info'.name = info.name := by
  cases h <;> rfl

theorem MembersDeclared.name_eq {info info' : ClassInfo} {s t : Session} {ms : List Member}
    (h : MembersDeclared info s ms info' t) : info'.name = info.name := by
  induction h with
  | nil info s => rfl
  | cons hfirst _ ih => rw [ih, hfirst.name_eq]

theorem MemberDeclared.filed {info info' : ClassInfo} {s t : Session} {m : Member}
    (h : MemberDeclared info s m info' t) (hfree : ∀ i ∈ m.ownIds, s.decls[i]? = none) :
    m.Filed info.name t.decls := by
  intro i hi
  cases h with
  | @method f isStatic name k hname hbody hk =>
    obtain rfl := List.mem_singleton.mp hi
    rw [Member.script?, if_pos (Option.isSome_iff_ne_none.mpr hbody), hname]
    exact ⟨k, Session.recorded_callable _ _ _, hk.script_eq⟩
  | @constructor f k hbody hk =>
    obtain rfl := List.mem_singleton.mp hi
    rw [Member.script?, if_pos (Option.isSome_iff_ne_none.mpr hbody)]
    exact ⟨k, Session.recorded_callable _ _ _, hk.script_eq⟩
  | property p => exact absurd hi List.not_mem_nil
  | nothing _ hmethod hconstructor hproperty =>
    have hnone : m.script? info.name = none := by
      cases m with
      | method f isStatic =>
        rcases hmethod f isStatic rfl with hname | hbody
        · rw [Member.script?, hname, Option.map_none, ite_self]
        · rw [Member.script?, hbody]
          rfl
      | constructor f =>
        rw [Member.script?, hconstructor f rfl]
        rfl
      | property p => rfl
      | other line kind => rfl
    rw [hnone]
    exact hfree i hi

theorem MembersDeclared.filed {info info' : ClassInfo} {s t : Session} {ms : List Member}
    (h : MembersDeclared info s ms info' t) (hnodup : (ms.flatMap Member.ownIds).Nodup)
    (hfree : ∀ i ∈ ms.flatMap Member.ownIds, s.decls[i]? = none) :
    ∀ m ∈ ms, m.Filed info.name t.decls := by
  induction h with
  | nil info s => exact fun m hm => absurd hm List.not_mem_nil
  | @cons info info' info'' s t u m rest hfirst hrest ih =>
    rw [List.flatMap_cons] at hnodup hfree
    obtain ⟨-, hnodup', hdisjoint⟩ := List.nodup_append'.mp hnodup
    have hothers := ih hnodup' fun i hi => by
      rw [hfirst.decls_eq fun hin => hdisjoint hin hi]
      exact hfree i (List.mem_append_right _ hi)
    rw [hfirst.name_eq] at hothers
    intro m' hm'
    rcases List.mem_cons.mp hm' with rfl | hm'
    · -- what follows records other ids
      refine (hfirst.filed fun i hi => hfree i (List.mem_append_left _ hi)).congr fun i hi => ?_
      exact hrest.decls_eq fun hin => hdisjoint hi hin
    · exact hothers m' hm'

theorem ClassDeclared.filed {s t : Session} {c : ClassDecl} (h : ClassDeclared s c t)
    (hnodup : c.declIds.Nodup) (hfiled : c.Filed s.decls) : c.Filed t.decls := by
  cases h with
  | known _ => exact hfiled
  | @fresh info u hown hfresh hmembers =>
    obtain ⟨hid, hnodup'⟩ := List.nodup_cons.mp (ClassDecl.nodup_own hnodup)
    have hfree := hfiled.free hfresh
    refine .inr ⟨hown, info, Session.recorded_class _ _ _, fun m hm => ?_⟩
    have hms := hmembers.filed hnodup' (by
      rw [show (Session.registered _ _).decls = s.decls from s.named_decls c.name]
      exact fun i hi => hfree i (List.mem_cons_of_mem _ hi))
    rw [hmembers.name_eq]
    refine (hms m hm).congr fun i hi => Session.recorded_other _ _ ?_
    rintro rfl
    exact hid (List.mem_flatMap.mpr ⟨m, hm, hi⟩)

/-- A statement of a unit that was just declared is ready. -/
theorem StmtDeclared.ready {s t : Session} {st : Stmt} (h : StmtDeclared s st t)
    (hnodup : st.declIds.Nodup) (hfree : ∀ i ∈ st.declIds, s.decls[i]? = none) :
    (Task.stmt st).Ready t.decls := by
  have hfiled : st.Filed s.decls := Stmt.filed_of_free hfree
  cases h with
  | imports line i => exact ⟨fun i hi => absurd hi List.not_mem_nil, trivial⟩
  | @function f t h =>
    refine ⟨fun i hi => ?_, h.filed hfiled⟩
    rw [Stmt.declIds, f.declIds_eq] at hnodup hfree
    have hne : i ≠ f.id := fun heq => (List.nodup_cons.mp hnodup).1 (heq ▸ hi)
    rw [h.decls_eq hne]
    exact hfree i (List.mem_cons_of_mem _ hi)
  | @classDef c t h =>
    refine ⟨fun i hi => ?_, h.filed hnodup hfiled⟩
    rw [Stmt.declIds, c.declIds_eq] at hnodup hfree
    obtain ⟨hid, hms⟩ := List.nodup_cons.mp hnodup
    have hperm := memberIds_perm_own c.members
    obtain ⟨-, -, hdisjoint⟩ := List.nodup_append'.mp (hperm.nodup_iff.mp hms)
    have hin : i ∈ memberIds c.members := hperm.mem_iff.mpr (List.mem_append_right _ hi)
    rw [h.decls_eq]
    · exact hfree i (List.mem_cons_of_mem _ hin)
    · intro hown
      rcases List.mem_cons.mp hown with rfl | hown
      · exact hid hin
      · exact hdisjoint hown hi
  | nothing st =>
    exact ⟨fun i hi => hfree i (st.innerIds_subset hi), hfiled⟩

theorem StmtDeclared.sub {s t : Session} {st : Stmt} (h : StmtDeclared s st t)
    (hnodup : st.declIds.Nodup) (hfiled : st.Filed s.decls) : s.decls.Sub t.decls := by
  cases h with
  | imports line i =>
    rw [(s.registeredAll_decls _).1]
    exact .refl _
  | function h => exact h.sub
  | classDef h => exact h.sub hnodup hfiled
  | nothing st => exact .refl _

theorem UnitDeclared.sub {s t : Session} {sts : List Stmt} (h : UnitDeclared s sts t)
    (hnodup : (declIds sts).Nodup) (hfree : ∀ i ∈ declIds sts, s.decls[i]? = none) :
    s.decls.Sub t.decls := by
  induction h with
  | nil s => exact .refl _
  | @cons s t u st rest hfirst hrest ih =>
    rw [declIds] at hnodup hfree
    obtain ⟨hst, hrest', hdisjoint⟩ := List.nodup_append'.mp hnodup
    have hfiled : st.Filed s.decls := Stmt.filed_of_free fun i hi => hfree i (List.mem_append_left _ hi)
    refine (hfirst.sub hst hfiled).trans (ih hrest' fun i hi => ?_)
    rw [hfirst.decls_eq fun hin => hdisjoint hin hi]
    exact hfree i (List.mem_append_right _ hi)

/-- **The statements of a unit are ready once it was declared.** -/
theorem UnitDeclared.ready {s t : Session} {sts : List Stmt} (h : UnitDeclared s sts t)
    (hnodup : (declIds sts).Nodup) (hfree : ∀ i ∈ declIds sts, s.decls[i]? = none) :
    (Task.stmts sts).Ready t.decls := by
  induction h with
  | nil s => exact .of_free hfree
  | @cons s t u st rest hfirst hrest ih =>
    rw [declIds] at hnodup hfree
    obtain ⟨hst, hrest', hdisjoint⟩ := List.nodup_append'.mp hnodup
    have hready := hfirst.ready hst fun i hi => hfree i (List.mem_append_left _ hi)
    have hready' : (Task.stmt st).Ready u.decls :=
      hready.congr fun i hi => hrest.decls_eq fun hin => hdisjoint hi hin
    have hothers := ih hrest' fun i hi => by
      rw [hfirst.decls_eq fun hin => hdisjoint hin hi]
      exact hfree i (List.mem_append_right _ hi)
    refine ⟨fun i hi => ?_, fun st' hst' => ?_⟩
    · rcases List.mem_append.mp hi with hi | hi
      · exact hready'.inner i hi
      · exact hothers.inner i hi
    · rcases List.mem_cons.mp hst' with rfl | hst'
      · exact hready'.filed
      · exact hothers.filed st' hst'

/-! ## Lowering adds records -/

theorem Session.warnedIf_decls (s : Session) (c : Bool) (line : Nat) (message : String) :
    (s.warnedIf c line message).decls = s.decls := by
  cases c <;> rfl

theorem Session.skipping_decls (s : Session) (rest : List Stmt) :
    (s.skipping rest).decls = s.decls := by
  cases rest <;> rfl

/-- The work can be done in a session with this table: its ids are its declarations' own, and those
inside it are free. -/
structure Task.Fit (task : Task) (t : DeclTable) : Prop where
  nodup : task.ids.Nodup
  ready : task.Ready t

namespace Task.Fit

variable {task : Task} {s t : Session}

theorem first {first rest : Task} (hsplit : task.split = some (first, rest))
    (h : task.Fit s.decls) : first.Fit s.decls where
  nodup := (List.nodup_append'.mp ((Task.split_ids hsplit).nodup_iff.mp h.nodup)).1
  ready := h.ready.first hsplit

/-- The first part of some work leaves the second part fit. -/
theorem rest {first rest : Task} {log : List Event} {out : Emitted Flow}
    (hsplit : task.split = some (first, rest)) (h : task.Fit s.decls)
    (hfirst : Runs first s log out t) : rest.Fit t.decls := by
  obtain ⟨-, hrest, hdisjoint⟩ := List.nodup_append'.mp ((Task.split_ids hsplit).nodup_iff.mp h.nodup)
  exact ⟨hrest, (h.ready.rest hsplit).congr fun i hi => hfirst.decls_eq fun hin => hdisjoint hin hi⟩

theorem inside {inner : Task} (hinside : task.inside = some inner) (h : task.Fit s.decls) :
    inner.Fit s.decls where
  nodup := Task.inside_ids hinside ▸ h.nodup
  ready := h.ready.inside hinside

theorem function {f : FunctionDecl} {body : List Stmt} (hbody : f.body = some body)
    (hdeclared : FunctionDeclared s f t) (h : (Task.stmt (.function f)).Fit s.decls) (line : Nat)
    (enclosing : Option ClassScope) (prologue : List Command) :
    (Task.callable f.id line enclosing prologue body).Fit t.decls := by
  have hnodup : (f.id :: declIds body).Nodup := by
    rw [← f.declIds_of_body hbody]
    exact h.nodup
  refine ⟨hnodup, fun i hi => ?_, (hdeclared.filed h.ready.filed).1⟩
  have hne : i ≠ f.id := fun heq => (List.nodup_cons.mp hnodup).1 (heq ▸ hi)
  rw [hdeclared.decls_eq hne]
  exact h.ready.inner i (by rw [Task.inner, Stmt.innerIds, hbody]; exact hi)

theorem method {info : ClassInfo} {scope : ClassScope} {f : FunctionDecl} {isStatic : Bool}
    {body : List Stmt} (hbody : f.body = some body)
    (h : (Task.method info scope (.method f isStatic)).Fit s.decls) (line : Nat)
    (enclosing : Option ClassScope) (prologue : List Command) :
    (Task.callable f.id line enclosing prologue body).Fit s.decls where
  nodup := by
    have hnodup : f.declIds.Nodup := h.nodup
    rw [f.declIds_of_body hbody] at hnodup
    exact hnodup
  ready := by
    refine ⟨fun i hi => h.ready.inner i ?_, ?_⟩
    · rw [Task.inner, Member.methodInner, hbody]
      exact hi
    · have hfiled : (Member.method f isStatic).Filed info.name s.decls := h.ready.filed
      exact (hfiled f.id List.mem_cons_self).class?_eq

theorem class_sub {c : ClassDecl} (hdeclared : ClassDeclared s c t)
    (h : (Task.stmt (.classDef c)).Fit s.decls) : s.decls.Sub t.decls :=
  hdeclared.sub h.nodup h.ready.filed

theorem classDef {c : ClassDecl} {info : ClassInfo} (hdeclared : ClassDeclared s c t)
    (hinfo : t.decls.class? c.id = some info) (h : (Task.stmt (.classDef c)).Fit s.decls)
    (scope : ClassScope) (line : Nat) : (Task.members info scope c.members line).Fit t.decls := by
  have hnodup : (c.id :: memberIds c.members).Nodup := c.declIds_eq ▸ h.nodup
  obtain ⟨hid, hms⟩ := List.nodup_cons.mp hnodup
  have hperm := memberIds_perm_own c.members
  obtain ⟨-, -, hdisjoint⟩ := List.nodup_append'.mp (hperm.nodup_iff.mp hms)
  refine ⟨hms, fun i hi => ?_, ?_⟩
  · rw [hdeclared.decls_eq]
    · exact h.ready.inner i hi
    · intro hin
      rcases List.mem_cons.mp hin with rfl | hin
      · exact hid (hperm.mem_iff.mpr (List.mem_append_right _ hi))
      · exact hdisjoint hin hi
  · rcases hdeclared.filed h.nodup h.ready.filed with hfree | ⟨-, info', hinfo', hmembers⟩
    · rw [DeclTable.class?_none (hfree _ List.mem_cons_self)] at hinfo
      cases hinfo
    · obtain rfl : info' = info := Option.some.inj (hinfo'.symm.trans hinfo)
      exact hmembers

theorem script {script : Script} (hopens : Opens task s script) (h : task.Fit s.decls) :
    script.body.Fit s.decls := by
  cases hopens with
  | callable hk line enclosing prologue body =>
    exact ⟨(List.nodup_cons.mp h.nodup).2, .of_free h.ready.inner⟩
  | fields info scope ms line =>
    exact ⟨List.nodup_nil, fun i hi => absurd hi List.not_mem_nil, trivial⟩

theorem constructor {info : ClassInfo} {scope : ClassScope} {ms : List Member} {line : Nat}
    {id : DeclId} {bodyLine : Nat} {body : List Stmt}
    (hfound : knownConstructor info ms = some (id, bodyLine, body))
    (h : (Task.initializer info scope ms line).Fit s.decls) (enclosing : Option ClassScope)
    (prologue : List Command) :
    (Task.callable id bodyLine enclosing prologue body).Fit s.decls := by
  obtain ⟨f, hf, rfl, hbody⟩ := knownConstructor_mem hfound
  refine ⟨(knownConstructor_ids hfound).nodup h.nodup, fun i hi => h.ready.inner i ?_, ?_⟩
  · refine List.mem_flatMap.mpr ⟨_, hf, ?_⟩
    rw [Member.constructorInner, hbody]
    exact hi
  · exact (h.ready.filed f hf f.id List.mem_cons_self).class?_eq

end Task.Fit

/-- **A record is written once.**  Work that fits the table only adds to it. -/
theorem Runs.sub {task : Task} {s t : Session} {log : List Event} {out : Emitted Flow}
    (h : Runs task s log out t) (hfit : task.Fit s.decls) : s.decls.Sub t.decls := by
  induction h with
  | idle h =>
    obtain ⟨ws, rfl⟩ := h.eq_noting
    exact .refl _
  | seq hsplit hfirst _ ihfirst ihrest =>
    exact (ihfirst (hfit.first hsplit)).trans (ihrest (hfit.rest hsplit hfirst))
  | @returned st s t log commands rest _ ih =>
    rw [t.skipping_decls]
    exact ih (hfit.first rfl)
  | inside hinside _ ih => exact ih (hfit.inside hinside)
  | declares _ _ s => exact .refl _
  | evaluates htask he => rcases htask.prepared with ⟨ws, rfl⟩ | ⟨_, _, _, _, rfl⟩ <;> exact .refl _
  | @function f body s t u log out hbody hdeclared _ ih =>
    rw [t.warnedIf_decls] at ih
    exact hdeclared.sub.trans (ih (hfit.function hbody hdeclared _ _ _))
  | @method info scope f isStatic body s t log out hbody _ ih =>
    rw [s.warnedIf_decls] at ih
    exact ih (hfit.method hbody _ _ _)
  | classDef _ hdeclared hinfo _ ih =>
    exact (hfit.class_sub hdeclared).trans (ih (hfit.classDef hdeclared hinfo _ _))
  | script hopens _ ih =>
    have hbody := hfit.script hopens
    rw [Session.stored_decls]
    exact ih hbody
  | constructor hfound _ ih => exact ih (hfit.constructor hfound _ _)
  | defaulted scope line hnone s =>
    rw [Session.stored_decls]
    exact .refl _

end FrameScript
