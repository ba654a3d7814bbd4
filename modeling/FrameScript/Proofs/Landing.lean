/-
  What is declared gets its scripts.

  Names and scripts come from two passes over a unit: declaring gives a function or class its
  record, lowering gives it its scripts.  The second pass leaves out what stands behind a `return`.
  Inside a body that is no loss, since there declaring waits for lowering; at the top of a unit the
  declarations behind a `return` have records and no scripts.

  `Runs.lands` says that these are the only ones: every other declaration that has a record in the
  end has the script that the record names, and a class has the script of its constructor.
-/
import FrameScript.Proofs.Growth

namespace FrameScript

open Source

/-! ## Where lowering stops -/

mutual

/-- Nothing behind the statement is lowered. -/
def Source.Stmt.returns : Stmt → Bool
  | .returning .. => true
  | .block _ body => bodyReturns body
  | _ => false

/-- One of the statements returns. -/
def Source.bodyReturns : List Stmt → Bool
  | [] => false
  | st :: rest => st.returns || bodyReturns rest

end

/-- The statements behind the first one that returns. -/
def Source.skipped : List Stmt → List Stmt
  | [] => []
  | st :: rest => if st.returns then rest else skipped rest

def Task.returns : Task → Bool
  | .stmts body => bodyReturns body
  | .stmt st => st.returns
  | _ => false

theorem Task.split_returns {task first rest : Task} (h : task.split = some (first, rest))
    (hfirst : first.returns = false) : task.returns = rest.returns := by
  cases Task.splits h with
  | stmts st others =>
    have hst : st.returns = false := hfirst
    show (st.returns || bodyReturns others) = bodyReturns others
    rw [hst, Bool.false_or]
  | _ => rfl

/-- Work returns just if it contains a `return` that counts. -/
theorem Runs.returns_eq {task : Task} {s t : Session} {log : List Event} {out : Emitted Flow}
    (h : Runs task s log out t) : out.value = if task.returns then .returned else .next := by
  induction h with
  | idle h => cases h <;> rfl
  | @seq task first rest _ _ _ _ _ _ _ hsplit _ _ ihfirst ihrest =>
    have hfirst : first.returns = false := by
      by_contra hne
      rw [Bool.not_eq_false] at hne
      rw [hne] at ihfirst
      cases ihfirst
    rw [Task.split_returns hsplit hfirst]
    exact ihrest
  | @returned st s t log commands rest _ ih =>
    have hst : st.returns = true := by
      by_contra hne
      have hst : (Task.stmt st).returns = false := Bool.not_eq_true _ ▸ hne
      rw [hst] at ih
      cases ih
    show Flow.returned = if (st.returns || bodyReturns rest) then .returned else .next
    rw [hst, Bool.true_or]
    rfl
  | inside hinside _ ih =>
    cases Task.encloses hinside with
    | block => exact ih
    | bindings => exact ih
  | evaluates htask _ => cases htask <;> rfl
  | script hopens _ _ => cases hopens <;> rfl
  | _ => rfl

theorem Runs.goes_on {task : Task} {s t : Session} {log : List Event} {commands : List Command}
    (h : Runs task s log ⟨commands, .next⟩ t) : task.returns = false := by
  have hflow := h.returns_eq
  by_contra hne
  rw [Bool.not_eq_false] at hne
  rw [hne] at hflow
  cases hflow

theorem Runs.stops {task : Task} {s t : Session} {log : List Event} {commands : List Command}
    (h : Runs task s log ⟨commands, .returned⟩ t) : task.returns = true := by
  have hflow := h.returns_eq
  by_contra hne
  rw [Bool.not_eq_true] at hne
  rw [hne] at hflow
  cases hflow

/-! ## Runs of the parts -/

/-- Work in two parts, the first of which does not return, is done in both parts. -/
theorem Runs.parts {task first rest : Task} {s t : Session} {log : List Event} {out : Emitted Flow}
    (h : Runs task s log out t) (hsplit : task.split = some (first, rest))
    (hnext : first.returns = false) :
    ∃ log₁ log₂ commands out' m, log = log₁ ++ log₂ ∧ Runs first s log₁ ⟨commands, .next⟩ m ∧
      Runs rest m log₂ out' t := by
  cases h with
  | seq hsplit' hfirst hrest =>
    cases hsplit.symm.trans hsplit'
    exact ⟨_, _, _, _, _, rfl, hfirst, hrest⟩
  | returned others hfirst =>
    cases hsplit
    have hflow := hfirst.returns_eq
    rw [hnext] at hflow
    cases hflow
  | idle h => cases h <;> cases hsplit
  | inside hinside _ => cases Task.encloses hinside <;> cases hsplit
  | evaluates htask _ => cases htask <;> cases hsplit
  | script hopens _ => cases hopens <;> cases hsplit
  | _ => cases hsplit

/-- A statement with parts is done by doing them. -/
theorem Runs.within {task inner : Task} {s t : Session} {log : List Event} {out : Emitted Flow}
    (h : Runs task s log out t) (hinside : task.inside = some inner) : Runs inner s log out t := by
  cases h with
  | inside hinside' h =>
    cases hinside.symm.trans hinside'
    exact h
  | seq hsplit _ _ => cases Task.splits hsplit <;> cases hinside
  | idle h => cases h <;> cases hinside
  | evaluates htask _ => cases htask <;> cases hinside
  | script hopens _ => cases hopens <;> cases hinside
  | _ => cases hinside

/-! ## Scripts that work is sure to store -/

theorem Session.contains_stored (s : Session) (name : String) (body : List Command) (line : Nat) :
    (s.stored name body line).scripts.contains name = true := by
  rw [Std.TreeMap.contains_eq_isSome_getElem?, s.getElem?_stored]
  rfl

/-- The known constructor of a class has the script of a constructor of that class. -/
theorem Task.Fit.constructor_script {info : ClassInfo} {scope : ClassScope} {ms : List Member}
    {line : Nat} {t : DeclTable} (h : (Task.initializer info scope ms line).Fit t)
    {f : FunctionDecl} (hf : .constructor f ∈ ms) (hbody : f.body ≠ none) :
    ∃ k, t.callable? f.id = some k ∧ k.script = initScript info.name := by
  have hheld := h.ready.filed f hf f.id List.mem_cons_self
  rw [Member.script?, if_pos (Option.isSome_iff_ne_none.mpr hbody)] at hheld
  exact hheld

/-- If anything is recorded under the id, it has its script. -/
structure Session.Lands (t : Session) (id : DeclId) : Prop where
  callable : ∀ k, t.decls.callable? id = some k → t.scripts.contains k.script = true
  classDef : ∀ info, t.decls.class? id = some info → t.scripts.contains (initScript info.name) = true

namespace Session.Lands

variable {s t : Session} {id : DeclId}

theorem of_free (h : t.decls[id]? = none) : t.Lands id where
  callable := fun k hk => by rw [DeclTable.callable?_none h] at hk; cases hk
  classDef := fun info hinfo => by rw [DeclTable.class?_none h] at hinfo; cases hinfo

theorem mono (h : s.Lands id) (heq : t.decls[id]? = s.decls[id]?) (hretains : Retains s t) :
    t.Lands id where
  callable := fun k hk => hretains.keys _ (h.callable k (DeclTable.callable?_congr heq ▸ hk))
  classDef := fun info hinfo => hretains.keys _ (h.classDef info (DeclTable.class?_congr heq ▸ hinfo))

end Session.Lands

mutual

/-- The classes inside a statement. -/
def Source.Stmt.classes : Stmt → List ClassDecl
  | .block _ body => stmtClasses body
  | .function f => f.classes
  | .classDef c => c.classes
  | _ => []

/-- The classes inside some statements. -/
def Source.stmtClasses : List Stmt → List ClassDecl
  | [] => []
  | st :: rest => st.classes ++ stmtClasses rest

/-- The classes inside a function, method or constructor. -/
def Source.FunctionDecl.classes : FunctionDecl → List ClassDecl
  | ⟨_, _, _, some body, _, _⟩ => stmtClasses body
  | ⟨_, _, _, none, _, _⟩ => []

/-- A class, then the classes inside its members. -/
def Source.ClassDecl.classes : ClassDecl → List ClassDecl
  | ⟨id, name, parent, isDeclared, isAbstract, members, line⟩ =>
    ⟨id, name, parent, isDeclared, isAbstract, members, line⟩ :: memberClasses members

/-- The classes inside a member of a class. -/
def Source.Member.classes : Member → List ClassDecl
  | .method f _ => f.classes
  | .constructor f => f.classes
  | .property _ | .other .. => []

/-- The classes inside some members of a class. -/
def Source.memberClasses : List Member → List ClassDecl
  | [] => []
  | m :: rest => m.classes ++ memberClasses rest

end

theorem Source.FunctionDecl.classes_of_body {f : FunctionDecl} {body : List Stmt}
    (h : f.body = some body) : f.classes = stmtClasses body := by
  obtain ⟨id, name, params, body', isAsync, line⟩ := f
  cases h
  rfl

theorem Source.ClassDecl.classes_eq (c : ClassDecl) : c.classes = c :: memberClasses c.members := by
  obtain ⟨id, name, parent, isDeclared, isAbstract, members, line⟩ := c
  rfl

theorem Source.mem_memberClasses {ms : List Member} {m : Member} (hm : m ∈ ms) :
    m.classes ⊆ memberClasses ms := by
  induction ms with
  | nil => exact absurd hm List.not_mem_nil
  | cons first rest ih =>
    rw [memberClasses]
    rcases List.mem_cons.mp hm with rfl | hm
    · exact List.subset_append_left _ _
    · exact List.Subset.trans (ih hm) (List.subset_append_right _ _)

/-- The classes inside a piece of work. -/
def Task.classes : Task → List ClassDecl
  | .stmts body => stmtClasses body
  | .stmt st => st.classes
  | .callable _ _ _ _ body => stmtClasses body
  | .members _ _ ms _ | .bodies _ _ ms _ | .initializer _ _ ms _ | .methods _ _ ms => memberClasses ms
  | .method _ _ m => m.classes
  | .declarators _ | .declarator _ | .fieldsScript .. | .fields .. | .field .. => []

theorem Task.split_classes {task first rest : Task} (h : task.split = some (first, rest)) :
    first.classes ⊆ task.classes ∧ rest.classes ⊆ task.classes := by
  cases Task.splits h with
  | stmts => exact ⟨List.subset_append_left _ _, List.subset_append_right _ _⟩
  | members => exact ⟨List.nil_subset _, List.Subset.refl _⟩
  | bodies => exact ⟨List.Subset.refl _, List.Subset.refl _⟩
  | methods => exact ⟨List.subset_append_left _ _, List.subset_append_right _ _⟩
  | _ => exact ⟨List.Subset.refl _, List.Subset.refl _⟩

theorem Task.inside_classes {task inner : Task} (h : task.inside = some inner) :
    inner.classes = task.classes := by
  cases Task.encloses h <;> rfl

/-- The members of a class that have scripts are recorded with them. -/
def Source.ClassDecl.Scripted (c : ClassDecl) (name : String) (t : DeclTable) : Prop :=
  ∀ m ∈ c.members, ∀ i ∈ m.ownIds, ∀ script, m.script? name = some script →
    ∃ k, t.callable? i = some k ∧ k.script = script

/-- Every class that is recorded is one of some classes, with its members. -/
def DeclTable.Accounts (t : DeclTable) (classes : List ClassDecl) : Prop :=
  ∀ id info, t.class? id = some info → ∃ c ∈ classes, c.id = id ∧ c.Scripted info.name t

theorem Source.ClassDecl.Scripted.mono {c : ClassDecl} {name : String} {t t' : DeclTable}
    (h : c.Scripted name t) (hsub : t.Sub t') : c.Scripted name t' := by
  intro m hm i hi script hscript
  obtain ⟨k, hk, heq⟩ := h m hm i hi script hscript
  exact ⟨k, hsub.callable hk, heq⟩

namespace DeclTable.Accounts

variable {t t' : DeclTable} {classes : List ClassDecl}

/-- Records were added, and the new ones are accounted for. -/
theorem extend (h : t.Accounts classes) (hsub : t.Sub t')
    (hnew : ∀ id info, t'.class? id = some info → t.class? id = some info ∨
      ∃ c ∈ classes, c.id = id ∧ c.Scripted info.name t') : t'.Accounts classes := by
  intro id info hinfo
  rcases hnew id info hinfo with hold | hnew
  · obtain ⟨c, hc, hid, hscripted⟩ := h id info hold
    exact ⟨c, hc, hid, hscripted.mono hsub⟩
  · exact hnew

theorem function {s t : Session} {f : FunctionDecl} (hdeclared : FunctionDeclared s f t)
    (hfiled : (Stmt.function f).Filed s.decls) (h : s.decls.Accounts classes) :
    t.decls.Accounts classes := by
  refine h.extend hdeclared.sub fun id info hinfo => .inl ?_
  by_cases hid : id = f.id
  · -- the new record is a callable
    subst hid
    rw [(hdeclared.filed hfiled).1] at hinfo
    cases hinfo
  · rw [← DeclTable.class?_congr (hdeclared.decls_eq hid)]
    exact hinfo

theorem classDef {s t : Session} {c : ClassDecl} (hdeclared : ClassDeclared s c t)
    (hnodup : c.declIds.Nodup) (hfiled : c.Filed s.decls) (hc : c ∈ classes)
    (h : s.decls.Accounts classes) : t.decls.Accounts classes := by
  refine h.extend (hdeclared.sub hnodup hfiled) fun id info hinfo => ?_
  by_cases hin : id ∈ c.id :: c.members.flatMap Member.ownIds
  · refine .inr ?_
    rcases hdeclared.filed hnodup hfiled with hfree | ⟨-, info', hinfo', hmembers⟩
    · rw [DeclTable.class?_none (hfree id hin)] at hinfo
      cases hinfo
    · rcases List.mem_cons.mp hin with rfl | hin
      · obtain rfl : info' = info := Option.some.inj (hinfo'.symm.trans hinfo)
        refine ⟨c, hc, rfl, fun m hm i hi script hscript => ?_⟩
        have hheld := hmembers m hm i hi
        rw [hscript] at hheld
        exact hheld
      · -- the members are recorded as callables
        obtain ⟨m, hm, hi⟩ := List.mem_flatMap.mp hin
        rw [(hmembers m hm id hi).class?_eq] at hinfo
        cases hinfo
  · refine .inl ?_
    rw [← DeclTable.class?_congr (hdeclared.decls_eq hin)]
    exact hinfo

theorem statements {s t : Session} {sts : List Stmt} (hdeclared : UnitDeclared s sts t)
    (hnodup : (declIds sts).Nodup) (hfree : ∀ i ∈ declIds sts, s.decls[i]? = none)
    (hclasses : stmtClasses sts ⊆ classes) (h : s.decls.Accounts classes) :
    t.decls.Accounts classes := by
  induction hdeclared with
  | nil s => exact h
  | @cons s t u st rest hfirst hrest ih =>
    rw [declIds] at hnodup hfree
    rw [stmtClasses] at hclasses
    obtain ⟨hst, hnodup', hdisjoint⟩ := List.nodup_append'.mp hnodup
    have hfiled : st.Filed s.decls := Stmt.filed_of_free fun i hi => hfree i (List.mem_append_left _ hi)
    refine ih hnodup' (fun i hi => ?_) (fun c hc => hclasses (List.mem_append_right _ hc)) ?_
    · rw [hfirst.decls_eq fun hin => hdisjoint hin hi]
      exact hfree i (List.mem_append_right _ hi)
    · cases hfirst with
      | imports line i =>
        rw [(s.registeredAll_decls _).1]
        exact h
      | function hf => exact function hf hfiled h
      | @classDef c t hc =>
        refine classDef hc hst hfiled (hclasses (List.mem_append_left _ ?_)) h
        rw [Stmt.classes, c.classes_eq]
        exact List.mem_cons_self
      | nothing st => exact h

end DeclTable.Accounts

end FrameScript
