/-
  The end of a unit, seen from the middle.

  A slot is used in one script and declared by another, which may be stored much later: the slots of a
  callable are declared by its own script, those of fields by the script of the class, a variable by
  the script that it stands in.  So whether a use is backed by a declaration is decided in the end.

  1. What is held in the middle is held in the end, unless a script is produced twice
     (`Session.LeadsTo`).
  2. A body that is reached declares the slots of its callable, and a class those of its fields
     (`Runs.live`, `Runs.settles`).
  3. If no statement at the top of a unit is skipped, all of them are reached (`Runs.reaches`).

  Only registers that end in a digit matter here, since minted slots do.
-/
import FrameScript.Proofs.Changes
import FrameScript.Proofs.Freshness
import FrameScript.Proofs.Landing

namespace FrameScript

open Source

/-! ## Texts that end in a digit -/

def endsInDigit (text : String) : Bool := text.toList.getLast?.any Char.isDigit

theorem endsInDigit_append (a : String) {b : String} (h : b ≠ "") :
    endsInDigit (a ++ b) = endsInDigit b := by
  have hne : b.toList ≠ [] := fun hnil => h (String.toList_eq_nil_iff.mp hnil)
  rw [endsInDigit, endsInDigit, String.toList_append, List.getLast?_append_of_ne_nil _ hne]

/-- Behind a separator that is no digit the second part decides, also if it is empty. -/
theorem endsInDigit_join (a : String) {separator : String} (hne : separator ≠ "")
    (hplain : endsInDigit separator = false) (b : String) :
    endsInDigit (a ++ separator ++ b) = endsInDigit b := by
  by_cases hb : b = ""
  · rw [hb, String.append_empty, endsInDigit_append a hne, hplain]
    rfl
  · exact endsInDigit_append _ hb

@[simp] theorem endsInDigit_qualify (context script : String) :
    endsInDigit (qualify context script) = endsInDigit script :=
  endsInDigit_join context (by decide) (by decide) script

@[simp] theorem endsInDigit_methodScript (className method : String) :
    endsInDigit (methodScript className method) = endsInDigit method :=
  endsInDigit_join className (by decide) (by decide) method

@[simp] theorem endsInDigit_mintedId (stem : String) (n : Nat) : endsInDigit (mintedId stem n) = true := by
  have hnumber : endsInDigit (toString n) = true := by
    rw [endsInDigit, Nat.toString_eq_repr, Nat.toList_repr]
    cases hlast : (Nat.toDigits 10 n).getLast? with
    | none => exact absurd (List.getLast?_eq_none_iff.mp hlast) (by simp)
    | some c =>
      have hin : c ∈ Nat.toDigits 10 n := List.mem_of_getLast? hlast
      exact Nat.isDigit_of_mem_toDigits (by decide) (by decide) hin
  exact (endsInDigit_join stem (by decide) (by decide) _).trans hnumber

/-! ## The end of a unit -/

theorem Scripts.mem_declared {scripts : Scripts (List Command)} {x : String} :
    x ∈ scripts.declared ↔
      ∃ (name : String) (script : List Command), scripts[name]? = some script ∧
        x ∈ declaredBy script := by
  rw [Scripts.declared, List.mem_flatMap]
  constructor
  · rintro ⟨⟨name, script⟩, hentry, hx⟩
    exact ⟨name, script, Std.TreeMap.mem_toList_iff_getElem?_eq_some.mp hentry, hx⟩
  · rintro ⟨name, script, hscript, hx⟩
    exact ⟨(name, script), Std.TreeMap.mem_toList_iff_getElem?_eq_some.mpr hscript, hx⟩

/-- What scripts declare stays declared while none of them is replaced. -/
theorem Retains.declared_subset {s t : Session} (h : Retains s t) (honce : ∀ name, ¬t.Twice name) :
    s.scripts.declared ⊆ t.scripts.declared := by
  intro x hx
  obtain ⟨name, script, hscript, hx⟩ := Scripts.mem_declared.mp hx
  have hkept := (h.scripts name script hscript).resolve_right (honce name)
  exact Scripts.mem_declared.mpr ⟨name, script, hkept, hx⟩

/-- The end of a unit, as it is seen from the middle: the context of the unit, the records that there
are in the end, and which registers count as declared.  Those that do not end in a digit are none of
its concern. -/
structure Outlook where
  context : String
  records : DeclTable
  Backed : String → Prop
  backed_of_plain : ∀ {x : String}, endsInDigit x = false → Backed x

/-- The session is on the way to that end, and no script was produced twice. -/
structure Session.LeadsTo (t : Session) (o : Outlook) : Prop where
  sub : t.decls.Sub o.records
  held : ∀ x ∈ t.held, o.Backed x
  once : ∀ name, ¬t.Twice name

namespace Session.LeadsTo

variable {o : Outlook} {s t : Session}

theorem earlier (h : t.LeadsTo o) (hgrows : Grows s t) (hsub : s.decls.Sub t.decls) : s.LeadsTo o where
  sub := hsub.trans h.sub
  held := fun x hx => by
    refine h.held x ?_
    rcases List.mem_append.mp hx with hx | hx
    · exact List.mem_append_left _ (hgrows.preamble.subset hx)
    · exact List.mem_append_right _ (hgrows.declared_subset h.once hx)
  once := fun name htwice => h.once name (htwice.mono hgrows.warnings)

/-- A script of its own declares in the end what its preamble holds. -/
theorem script {name : String} {body : List Command} {line : Nat}
    (h : ((s.closed t).stored name body line).LeadsTo o)
    (hbody : t.allocator.preamble ⊆ declaredBy body) : t.LeadsTo o := by
  have hretains := Retains.stored (s.closed t) name body line
  refine ⟨?_, fun x hx => ?_, fun name' htwice => ?_⟩
  · have hsub := h.sub
    rw [Session.stored_decls] at hsub
    exact hsub
  · refine h.held x (List.mem_append_right _ ?_)
    rcases List.mem_append.mp hx with hx | hx
    · exact Scripts.mem_declared.mpr ⟨name, body, Session.getElem?_stored _ _ _ _, hbody hx⟩
    · exact hretains.declared_subset h.once hx
  · have hclosed : (s.closed t).Twice name' := htwice
    exact h.once name' (hclosed.mono hretains.warnings)

end Session.LeadsTo

theorem preamble_subset_declaredBy (preamble : List String) (prologue commands : List Command) :
    preamble ⊆ declaredBy (declarations preamble ++ prologue ++ commands) := by
  rw [declaredBy_append, declaredBy_append, declaredBy_declarations, List.append_assoc]
  exact List.subset_append_left _ _

/-! ## Bodies that are reached -/

namespace Outlook

variable (o : Outlook)

/-- All slots of the callable are declared, if it is recorded in the end. -/
def Live (id : DeclId) : Prop := ∀ k, o.records.callable? id = some k → ∀ x ∈ k.slots, o.Backed x

/-- All slots of the class with these members are declared. -/
structure Settles (info : ClassInfo) (ms : List Member) : Prop where
  fields : ∀ f ∈ info.fields, o.Backed f.2
  constructor : ∀ id, info.constructor = some id → o.Live id
  methods : ∀ f isStatic, .method f isStatic ∈ ms → f.name ≠ none → f.body ≠ none → o.Live f.id

variable {o}

/-- A class has no slots of a callable. -/
theorem live_class {id : DeclId} {info : ClassInfo} (h : o.records.class? id = some info) :
    o.Live id := by
  intro k hk
  rw [DeclTable.callable?_of_class h] at hk
  cases hk

end Outlook

/-- The constructor that is found is the one that is known. -/
theorem knownConstructor_eq {info : ClassInfo} {ms : List Member} {id : DeclId} {line : Nat}
    {body : List Stmt} (h : knownConstructor info ms = some (id, line, body)) :
    info.constructor = some id := by
  fun_induction knownConstructor info ms with
  | case1 => cases h
  | case2 id' _ _ body' _ line' rest hid =>
    obtain ⟨_, -, heq⟩ := Option.map_eq_some_iff.mp h
    cases heq
    exact hid
  | case3 id' _ _ body' _ line' rest hid ih => exact ih h
  | case4 m rest hm ih => exact ih h

/-- The known constructor is found, since no other constructor has its id. -/
theorem knownConstructor_ne_none {info : ClassInfo} {ms : List Member} {f : FunctionDecl}
    (hnodup : (ms.flatMap Member.constructorIds).Nodup) (hf : .constructor f ∈ ms)
    (hid : info.constructor = some f.id) (hbody : f.body ≠ none) : knownConstructor info ms ≠ none := by
  fun_induction knownConstructor info ms with
  | case1 => exact absurd hf List.not_mem_nil
  | case2 id' _ _ body' _ line' rest hid' =>
    rcases List.mem_cons.mp hf with heq | hf
    · cases heq
      rw [ne_eq, Option.map_eq_none_iff]
      exact hbody
    · -- there would be two constructors with one id
      rw [List.flatMap_cons] at hnodup
      refine absurd rfl ((List.nodup_append.mp hnodup).2.2 f.id ?_ f.id ?_)
      · rw [Option.some.inj (hid.symm.trans hid')]
        exact FunctionDecl.id_mem_declIds _
      · exact List.mem_flatMap.mpr ⟨_, hf, f.id_mem_declIds⟩
  | case3 id' _ _ body' _ line' rest hid' ih =>
    rcases List.mem_cons.mp hf with heq | hf
    · cases heq
      exact absurd hid hid'
    · exact ih (List.nodup_append.mp hnodup).2.1 hf
  | case4 m rest hm ih =>
    rcases List.mem_cons.mp hf with heq | hf
    · obtain ⟨id, name, params, body, isAsync, line⟩ := f
      exact (hm _ _ _ _ _ _ heq.symm).elim
    · exact ih (List.nodup_append.mp hnodup).2.1 hf

theorem FunctionDeclared.callable {s t : Session} {f : FunctionDecl} (h : FunctionDeclared s f t)
    (hbody : f.body ≠ none) (hclass : t.decls.class? f.id = none) :
    ∃ k, t.decls.callable? f.id = some k := by
  cases h with
  | known hknown =>
    have hcontains := hknown.resolve_left hbody
    rw [Std.TreeMap.contains_eq_isSome_getElem?] at hcontains
    obtain ⟨d, hd⟩ := Option.isSome_iff_exists.mp hcontains
    cases d with
    | callable k => exact ⟨k, by rw [DeclTable.callable?, hd]⟩
    | classInfo info =>
      rw [DeclTable.class?, hd] at hclass
      cases hclass
  | fresh k _ _ _ => exact ⟨k, Session.recorded_callable _ _ _⟩

section Reached

variable {o : Outlook} {s t : Session} {log : List Event} {out : Emitted Flow} {info : ClassInfo}
  {scope : ClassScope} {ms : List Member} {line : Nat}

/-- **A body that is reached declares the slots of its callable.** -/
theorem Runs.live {id : DeclId} {enclosing : Option ClassScope} {prologue : List Command}
    {body : List Stmt} (h : Runs (.callable id line enclosing prologue body) s log out t)
    (hfit : (Task.callable id line enclosing prologue body).Fit s.decls) (hend : t.LeadsTo o)
    {k : Callable} (hk : s.decls.callable? id = some k) : o.Live id := by
  cases h with
  | idle h =>
    cases h with
    | unknown hnone =>
      rw [hk] at hnone
      cases hnone
  | seq hsplit _ _ => cases hsplit
  | inside hinside _ => cases hinside
  | evaluates htask _ => cases htask
  | script hopens hrun =>
    have hbody := hfit.script hopens
    cases hopens with
    | callable hfound =>
      cases Option.some.inj (hk.symm.trans hfound)
      have hinner := hend.script (preamble_subset_declaredBy _ _ _)
      have hfinal := hinner.sub.callable ((hrun.sub hbody).callable hk)
      intro k' hk' x hx
      obtain rfl : k' = k := Option.some.inj (hk'.symm.trans hfinal)
      exact hinner.held x (List.mem_append_left _ (hrun.grows.preamble.subset hx))

theorem Runs.live_function {f : FunctionDecl} (h : Runs (.stmt (.function f)) s log out t)
    (hfit : (Task.stmt (.function f)).Fit s.decls) (hend : t.LeadsTo o) (hbody : f.body ≠ none) :
    o.Live f.id := by
  cases h with
  | idle h =>
    cases h with
    | signature hnone => exact absurd hnone hbody
  | seq hsplit _ _ => cases hsplit
  | inside hinside _ => cases hinside
  | evaluates htask _ => cases htask
  | script hopens _ => cases hopens
  | @function _ body _ u _ _ _ hsome hdeclared hrun =>
    have hfit' := hfit.function hsome hdeclared f.line u.scope.enclosing []
    obtain ⟨k, hk⟩ := hdeclared.callable hbody hfit'.ready.filed
    rw [← u.warnedIf_decls f.isAsync f.line "async function is lowered synchronously"] at hfit' hk
    exact hrun.live hfit' hend hk

theorem Runs.live_method {f : FunctionDecl} {isStatic : Bool}
    (h : Runs (.method info scope (.method f isStatic)) s log out t)
    (hfit : (Task.method info scope (.method f isStatic)).Fit s.decls) (hend : t.LeadsTo o)
    (hname : f.name ≠ none) (hbody : f.body ≠ none) : o.Live f.id := by
  cases h with
  | idle h =>
    cases h with
    | method _ _ _ hnone => exact absurd (hnone f isStatic rfl) hbody
  | seq hsplit _ _ => cases hsplit
  | inside hinside _ => cases hinside
  | evaluates htask _ => cases htask
  | script hopens _ => cases hopens
  | method hsome hrun =>
    have hfit' := hfit.method hsome f.line (some scope) []
    have hfiled : (Member.method f isStatic).Filed info.name s.decls := hfit.ready.filed
    have hheld := hfiled f.id List.mem_cons_self
    obtain ⟨name, hname⟩ := Option.ne_none_iff_exists'.mp hname
    rw [Member.script?, if_pos (Option.isSome_iff_ne_none.mpr hbody), hname] at hheld
    obtain ⟨k, hk, -⟩ := hheld
    rw [← s.warnedIf_decls f.isAsync f.line "async method is lowered synchronously"] at hfit' hk
    exact hrun.live hfit' hend hk

theorem Runs.live_methods (h : Runs (.methods info scope ms) s log out t)
    (hfit : (Task.methods info scope ms).Fit s.decls) (hend : t.LeadsTo o) {f : FunctionDecl}
    {isStatic : Bool} (hf : .method f isStatic ∈ ms) (hname : f.name ≠ none) (hbody : f.body ≠ none) :
    o.Live f.id := by
  induction ms generalizing s log out with
  | nil => exact absurd hf List.not_mem_nil
  | cons m rest ih =>
    obtain ⟨_, _, _, _, u, rfl, hfirst, hrest⟩ := h.parts rfl rfl
    have hfit' := hfit.rest rfl hfirst
    rcases List.mem_cons.mp hf with rfl | hf
    · exact hfirst.live_method (hfit.first rfl) (hend.earlier hrest.grows (hrest.sub hfit')) hname hbody
    · exact ih hrest hfit' hf

theorem Runs.live_constructor (h : Runs (.initializer info scope ms line) s log out t)
    (hfit : (Task.initializer info scope ms line).Fit s.decls) (hend : t.LeadsTo o) {f : FunctionDecl}
    (hf : .constructor f ∈ ms) (hid : info.constructor = some f.id) (hbody : f.body ≠ none) :
    o.Live f.id := by
  cases h with
  | idle h => cases h
  | seq hsplit _ _ => cases hsplit
  | inside hinside _ => cases hinside
  | evaluates htask _ => cases htask
  | script hopens _ => cases hopens
  | constructor hfound hrun =>
    obtain rfl := Option.some.inj ((knownConstructor_eq hfound).symm.trans hid)
    obtain ⟨k, hk, -⟩ := hfit.constructor_script hf hbody
    exact hrun.live (hfit.constructor hfound _ _) hend hk
  | defaulted _ _ hnone => exact absurd hnone (knownConstructor_ne_none hfit.nodup hf hid hbody)

/-- The script of a class declares the slots of its fields. -/
theorem Runs.backs_fields (h : Runs (.fieldsScript info scope ms line) s log out t)
    (hend : t.LeadsTo o) : ∀ f ∈ info.fields, o.Backed f.2 := by
  cases h with
  | idle h => cases h
  | seq hsplit _ _ => cases hsplit
  | inside hinside _ => cases hinside
  | evaluates htask _ => cases htask
  | script hopens hrun =>
    cases hopens with
    | fields =>
      have hinner := hend.script (preamble_subset_declaredBy _ _ _)
      intro f hf
      refine hinner.held f.2 (List.mem_append_left _ (hrun.grows.preamble.subset ?_))
      exact List.mem_map_of_mem hf

/-- **A class that is reached declares its slots.**  Its known constructor is one of its members. -/
theorem Runs.settles (h : Runs (.members info scope ms line) s log out t)
    (hfit : (Task.members info scope ms line).Fit s.decls) (hend : t.LeadsTo o)
    (hknown : ∀ id, info.constructor = some id →
      ∃ f, .constructor f ∈ ms ∧ f.id = id ∧ f.body ≠ none) : o.Settles info ms := by
  obtain ⟨_, _, _, _, u, rfl, hfields, hbodies⟩ := h.parts rfl rfl
  have hfit' := hfit.rest rfl hfields
  obtain ⟨_, _, _, _, u', rfl, hinitializer, hmethods⟩ := hbodies.parts rfl rfl
  have hfit'' := hfit'.rest rfl hinitializer
  refine ⟨?_, fun id hid => ?_, fun f isStatic hf => ?_⟩
  · exact hfields.backs_fields (hend.earlier hbodies.grows (hbodies.sub hfit'))
  · obtain ⟨f, hf, rfl, hbody⟩ := hknown id hid
    exact hinitializer.live_constructor (hfit'.first rfl)
      (hend.earlier hmethods.grows (hmethods.sub hfit'')) hf hid hbody
  · exact hmethods.live_methods hfit'' hend hf

/-- The run of the first of some statements. -/
theorem Runs.head {st : Stmt} {rest : List Stmt} (h : Runs (.stmts (st :: rest)) s log out t)
    (hfit : (Task.stmts (st :: rest)).Fit s.decls) :
    ∃ log' out' m, Runs (.stmt st) s log' out' m ∧ Grows m t ∧ m.decls.Sub t.decls := by
  cases h with
  | idle h => cases h
  | seq hsplit hfirst hrest =>
    cases hsplit
    exact ⟨_, _, _, hfirst, hrest.grows, hrest.sub (hfit.rest rfl hfirst)⟩
  | @returned _ _ m _ _ _ hfirst =>
    obtain ⟨ws, hws⟩ := m.skipping_eq_noting rest
    rw [hws]
    exact ⟨_, _, m, hfirst, .noting m ws, .refl _⟩
  | inside hinside _ => cases hinside
  | evaluates htask _ => cases htask
  | script hopens _ => cases hopens

/-- If no statement is skipped, all of them are reached. -/
theorem Runs.reaches {body : List Stmt} (h : Runs (.stmts body) s log out t)
    (hfit : (Task.stmts body).Fit s.decls) (hend : t.LeadsTo o) (hall : skipped body = []) {st : Stmt}
    (hst : st ∈ body) : ∃ s' log' out' t', Runs (.stmt st) s' log' out' t' ∧
      (Task.stmt st).Fit s'.decls ∧ s.decls.Sub s'.decls ∧ t'.LeadsTo o := by
  induction body generalizing s log out with
  | nil => exact absurd hst List.not_mem_nil
  | cons first rest ih =>
    rcases List.mem_cons.mp hst with rfl | hst
    · obtain ⟨log', out', m, hfirst, hgrows, hsub⟩ := h.head hfit
      exact ⟨s, log', out', m, hfirst, hfit.first rfl, .refl _, hend.earlier hgrows hsub⟩
    · rw [skipped] at hall
      split at hall
      · rw [hall] at hst
        exact absurd hst List.not_mem_nil
      · next hno =>
        obtain ⟨_, _, _, _, m, rfl, hfirst, hrest⟩ := h.parts rfl (Bool.eq_false_iff.mpr hno)
        obtain ⟨s', log', out', t', hrun, hfit', hsub, hend'⟩ := ih hrest (hfit.rest rfl hfirst) hall hst
        exact ⟨s', log', out', t', hrun, hfit', (hfirst.sub (hfit.first rfl)).trans hsub, hend'⟩

theorem Runs.settles_class {c : ClassDecl} {info : ClassInfo} (h : Runs (.stmt (.classDef c)) s log out t)
    (hfit : (Task.stmt (.classDef c)).Fit s.decls) (hend : t.LeadsTo o)
    (hown : (c.isDeclared || c.isAbstract) = false) (hinfo : s.decls.class? c.id = some info)
    (hdescribes : info.Describes c) : o.Settles info c.members := by
  cases h with
  | idle h =>
    cases h with
    | foreign hforeign =>
      rw [hown] at hforeign
      cases hforeign
    | taken hnone =>
      rw [hinfo] at hnone
      cases hnone
  | seq hsplit _ _ => cases hsplit
  | inside hinside _ => cases hinside
  | evaluates htask _ => cases htask
  | script hopens _ => cases hopens
  | classDef _ hdeclared hfound hrun =>
    have hkept := (hfit.class_sub hdeclared).classInfo hinfo
    obtain rfl := Option.some.inj (hkept.symm.trans hfound)
    exact hrun.settles (hfit.classDef hdeclared hfound _ _) hend hdescribes.constructor

end Reached

end FrameScript
