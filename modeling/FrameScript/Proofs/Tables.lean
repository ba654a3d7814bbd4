/-
  What is recorded, and where.

  Everything known about a declaration stands in a table under its id.  A piece of work records
  nothing but the declarations inside it: under all other ids the table stays as it is
  (`Runs.decls_eq`).  Since ids are the declarations' own, work on one statement cannot change what
  is known about the declarations of another.
-/
import FrameScript.Proofs.Identities
import FrameScript.Proofs.Runs

namespace FrameScript

open Source

/-! ## The ids inside a piece of work -/

/-- The ids inside a constructor. -/
def Source.Member.constructorIds : Member → List DeclId
  | .constructor f => f.declIds
  | _ => []

/-- The ids inside a method. -/
def Source.Member.methodIds : Member → List DeclId
  | .method f _ => f.declIds
  | _ => []

/-- The id that declaring a member records. -/
def Source.Member.ownIds : Member → List DeclId
  | .method f _ => [f.id]
  | .constructor f => [f.id]
  | .property _ | .other .. => []

/-- The ids inside a class are those of its constructors and those of its methods. -/
theorem memberIds_perm (ms : List Member) :
    (memberIds ms).Perm (ms.flatMap Member.constructorIds ++ ms.flatMap Member.methodIds) := by
  induction ms with
  | nil => exact .nil
  | cons m rest ih =>
    rw [memberIds, List.flatMap_cons, List.flatMap_cons]
    have hmember : m.declIds = m.constructorIds ++ m.methodIds := by
      cases m with
      | constructor f => exact (List.append_nil _).symm
      | _ => rfl
    rw [hmember]
    calc m.constructorIds ++ m.methodIds ++ memberIds rest
      _ |>.Perm (m.constructorIds ++ m.methodIds ++
          (rest.flatMap Member.constructorIds ++ rest.flatMap Member.methodIds)) := ih.append_left _
      _ |>.Perm (m.constructorIds ++ rest.flatMap Member.constructorIds ++
          (m.methodIds ++ rest.flatMap Member.methodIds)) := by
        simp only [List.append_assoc]
        refine List.Perm.append_left _ ?_
        simp only [← List.append_assoc]
        exact List.Perm.append_right _ List.perm_append_comm

/-- The ids of the declarations inside a piece of work. -/
def Task.ids : Task → List DeclId
  | .stmts body => declIds body
  | .stmt st => st.declIds
  | .callable id _ _ _ body => id :: declIds body
  | .members _ _ ms _ | .bodies _ _ ms _ => memberIds ms
  | .initializer _ _ ms _ => ms.flatMap Member.constructorIds
  | .methods _ _ ms => ms.flatMap Member.methodIds
  | .method _ _ m => m.methodIds
  | .declarators _ | .declarator _ | .fieldsScript .. | .fields .. | .field .. => []

theorem Task.split_ids {task first rest : Task} (h : task.split = some (first, rest)) :
    task.ids.Perm (first.ids ++ rest.ids) := by
  cases Task.splits h with
  | bodies => exact memberIds_perm _
  | _ => exact .refl _

theorem Task.inside_ids {task inner : Task} (h : task.inside = some inner) :
    task.ids = inner.ids := by
  cases Task.encloses h <;> rfl

theorem Source.FunctionDecl.declIds_of_body {f : FunctionDecl} {body : List Stmt}
    (h : f.body = some body) : f.declIds = f.id :: Source.declIds body := by
  rw [f.declIds_eq, h]
  rfl

theorem Source.FunctionDecl.id_mem_declIds (f : FunctionDecl) : f.id ∈ f.declIds := by
  rw [f.declIds_eq]
  exact List.mem_cons_self

theorem Source.Member.ownIds_subset (m : Member) : m.ownIds ⊆ m.declIds := by
  intro i hi
  cases m with
  | method f isStatic => exact List.mem_singleton.mp hi ▸ f.id_mem_declIds
  | constructor f => exact List.mem_singleton.mp hi ▸ f.id_mem_declIds
  | property p => exact absurd hi List.not_mem_nil
  | other line kind => exact absurd hi List.not_mem_nil

theorem ownIds_subset (ms : List Member) : ms.flatMap Member.ownIds ⊆ memberIds ms := by
  induction ms with
  | nil => exact List.nil_subset _
  | cons m rest ih =>
    rw [List.flatMap_cons, memberIds]
    intro i hi
    rcases List.mem_append.mp hi with hi | hi
    · exact List.mem_append_left _ (m.ownIds_subset hi)
    · exact List.mem_append_right _ (ih hi)

theorem Source.ClassDecl.ownIds_subset (c : ClassDecl) :
    c.id :: c.members.flatMap Member.ownIds ⊆ c.declIds := by
  rw [c.declIds_eq]
  exact List.cons_subset_cons _ (FrameScript.ownIds_subset c.members)

/-- The known constructor is one of the members. -/
theorem knownConstructor_mem {info : ClassInfo} {ms : List Member} {id : DeclId} {line : Nat}
    {body : List Stmt} (h : knownConstructor info ms = some (id, line, body)) :
    ∃ f, .constructor f ∈ ms ∧ f.id = id ∧ f.body = some body := by
  fun_induction knownConstructor info ms with
  | case1 => cases h
  | case2 id' _ _ body' _ line' rest hid =>
    obtain ⟨body'', rfl, heq⟩ := Option.map_eq_some_iff.mp h
    cases heq
    exact ⟨_, List.mem_cons_self, rfl, rfl⟩
  | case3 id' _ _ body' _ line' rest hid ih =>
    obtain ⟨f, hf, hrest⟩ := ih h
    exact ⟨f, List.mem_cons_of_mem _ hf, hrest⟩
  | case4 m rest hm ih =>
    obtain ⟨f, hf, hrest⟩ := ih h
    exact ⟨f, List.mem_cons_of_mem _ hf, hrest⟩

/-- Its ids are those of one of the constructors. -/
theorem knownConstructor_ids {info : ClassInfo} {ms : List Member} {id : DeclId} {line : Nat}
    {body : List Stmt} (h : knownConstructor info ms = some (id, line, body)) :
    (id :: declIds body).Sublist (ms.flatMap Member.constructorIds) := by
  fun_induction knownConstructor info ms with
  | case1 => cases h
  | case2 id' _ _ body' _ line' rest hid =>
    obtain ⟨body'', rfl, heq⟩ := Option.map_eq_some_iff.mp h
    cases heq
    exact List.sublist_append_left _ _
  | case3 id' _ _ body' _ line' rest hid ih => exact (ih h).trans (List.sublist_append_right _ _)
  | case4 m rest hm ih => exact (ih h).trans (List.sublist_append_right _ _)

/-! ## What work records -/

theorem Session.recorded_other (s : Session) (d : Declaration) {i id : DeclId} (h : i ≠ id) :
    (s.recorded id d).decls[i]? = s.decls[i]? := by
  show (s.decls.insert id d)[i]? = _
  simp [Std.TreeMap.getElem?_insert, Ne.symm h]

@[simp] theorem Session.recorded_self (s : Session) (id : DeclId) (d : Declaration) :
    (s.recorded id d).decls[id]? = some d := by
  show (s.decls.insert id d)[id]? = _
  rw [Std.TreeMap.getElem?_insert_self]

theorem Session.named_decls (s : Session) (name : Option String) :
    (s.named name).2.decls = s.decls := by
  cases name <;> rfl

theorem FunctionDeclared.decls_eq {s t : Session} {f : FunctionDecl} (h : FunctionDeclared s f t)
    {i : DeclId} (hi : i ≠ f.id) : t.decls[i]? = s.decls[i]? := by
  cases h with
  | known _ => rfl
  | fresh k _ _ _ =>
    rw [Session.withCallable, Session.recorded_other _ _ hi]
    exact congrArg (·[i]?) (s.named_decls f.name)

theorem MemberDeclared.decls_eq {info info' : ClassInfo} {s t : Session} {m : Member}
    (h : MemberDeclared info s m info' t) {i : DeclId} (hi : i ∉ m.ownIds) :
    t.decls[i]? = s.decls[i]? := by
  cases h with
  | method _ k _ _ _ => exact Session.recorded_other _ _ fun heq => hi (heq ▸ List.mem_cons_self)
  | constructor k _ _ => exact Session.recorded_other _ _ fun heq => hi (heq ▸ List.mem_cons_self)
  | property p => rfl
  | nothing _ _ _ _ => rfl

theorem MembersDeclared.decls_eq {info info' : ClassInfo} {s t : Session} {ms : List Member}
    (h : MembersDeclared info s ms info' t) {i : DeclId} (hi : i ∉ ms.flatMap Member.ownIds) :
    t.decls[i]? = s.decls[i]? := by
  induction h with
  | nil info s => rfl
  | cons hfirst _ ih =>
    rw [List.flatMap_cons, List.mem_append, not_or] at hi
    rw [ih hi.2, hfirst.decls_eq hi.1]

theorem ClassDeclared.decls_eq {s t : Session} {c : ClassDecl} (h : ClassDeclared s c t) {i : DeclId}
    (hi : i ∉ c.id :: c.members.flatMap Member.ownIds) : t.decls[i]? = s.decls[i]? := by
  rw [List.mem_cons, not_or] at hi
  cases h with
  | known _ => rfl
  | fresh _ _ hmembers =>
    rw [Session.recorded_other _ _ hi.1, hmembers.decls_eq hi.2]
    exact congrArg (·[i]?) (s.named_decls c.name)

theorem StmtDeclared.decls_eq {s t : Session} {st : Stmt} (h : StmtDeclared s st t) {i : DeclId}
    (hi : i ∉ st.declIds) : t.decls[i]? = s.decls[i]? := by
  cases h with
  | imports line i' => rw [(s.registeredAll_decls _).1]
  | @function f t h => exact h.decls_eq fun heq => hi (heq ▸ f.id_mem_declIds)
  | @classDef c t h => exact h.decls_eq fun hin => hi (c.ownIds_subset hin)
  | nothing _ => rfl

theorem UnitDeclared.decls_eq {s t : Session} {sts : List Stmt} (h : UnitDeclared s sts t)
    {i : DeclId} (hi : i ∉ declIds sts) : t.decls[i]? = s.decls[i]? := by
  induction h with
  | nil s => rfl
  | cons hfirst _ ih =>
    rw [declIds, List.mem_append, not_or] at hi
    rw [ih hi.2, hfirst.decls_eq hi.1]

/-- All that is owed after a unit was declared has been minted. -/
theorem Session.stored_decls (s : Session) (name : String) (body : List Command) (line : Nat) :
    (s.stored name body line).decls = s.decls := by
  obtain ⟨ws, hws⟩ := s.stored_eq_noting name body line
  rw [hws]
  rfl

/-- **Work records only the declarations inside it.** -/
theorem Runs.decls_eq {task : Task} {s t : Session} {log : List Event} {out : Emitted Flow}
    (h : Runs task s log out t) {i : DeclId} (hi : i ∉ task.ids) : t.decls[i]? = s.decls[i]? := by
  induction h with
  | idle h =>
    obtain ⟨ws, rfl⟩ := h.eq_noting
    rfl
  | seq hsplit _ _ ihfirst ihrest =>
    rw [(Task.split_ids hsplit).mem_iff, List.mem_append, not_or] at hi
    rw [ihrest hi.2, ihfirst hi.1]
  | @returned st s t log commands rest _ ih =>
    obtain ⟨ws, hws⟩ := t.skipping_eq_noting rest
    rw [hws]
    exact ih fun hin => hi (List.mem_append_left _ hin)
  | inside hinside _ ih => exact ih (Task.inside_ids hinside ▸ hi)
  | declares _ _ s => rfl
  | evaluates htask he =>
    rcases htask.prepared with ⟨ws, rfl⟩ | ⟨_, _, _, _, rfl⟩ <;> rfl
  | @function f body s t u log out hbody hdeclared _ ih =>
    have hids : i ∉ f.id :: declIds body := by
      rw [← f.declIds_of_body hbody]
      exact hi
    obtain ⟨ws, hws⟩ := t.warnedIf_eq_noting f.isAsync f.line "async function is lowered synchronously"
    rw [ih hids, hws]
    exact hdeclared.decls_eq fun heq => hids (heq ▸ List.mem_cons_self)
  | @method info scope f isStatic body s t log out hbody _ ih =>
    have hids : i ∉ f.id :: declIds body := by
      rw [← f.declIds_of_body hbody]
      exact hi
    obtain ⟨ws, hws⟩ := s.warnedIf_eq_noting f.isAsync f.line "async method is lowered synchronously"
    rw [ih hids, hws]
    rfl
  | @classDef c info s t u log out hown hdeclared _ _ ih =>
    have hids : i ∉ c.declIds := hi
    rw [ih (fun hin => hids (c.declIds_eq ▸ List.mem_cons_of_mem _ hin)),
      hdeclared.decls_eq fun hin => hids (c.ownIds_subset hin)]
  | script hopens _ ih =>
    rw [Session.stored_decls]
    cases hopens with
    | callable hk line enclosing prologue body =>
      exact ih fun hin => hi (List.mem_cons_of_mem _ hin)
    | fields info scope ms line => exact ih List.not_mem_nil
  | constructor hfound _ ih => exact ih fun hin => hi ((knownConstructor_ids hfound).subset hin)
  | defaulted scope line hnone s => rw [Session.stored_decls]

end FrameScript
