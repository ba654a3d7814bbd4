/-
  Keys of members that are apart.

  A member is found under the name of its class and its own put together, and nothing keeps two such
  keys apart but their spelling: `Bx` of `A` and `x` of `AB` have one key between them.

  1. `MembersApart` says of a unit that its keys are apart, by the names that its declarations are
     compiled under.
  2. A name keeps its meaning while nothing declares it (`Runs.meanings_eq`).  The only declaration
     that makes a key is that of its class, so what a class offers it offers to the end of the scope
     that it was declared in (`Runs.keeps_offers`, `UnitDeclared.offers`).
-/
import FrameScript.Proofs.Members
import FrameScript.Proofs.Units
import FrameScript.Proofs.Variables
import Mathlib.Data.List.Nodup
import Mathlib.Data.List.Pairwise

namespace FrameScript

open Source

/-! ## Names that are bound -/

mutual

/-- The names that a statement gives a meaning to, in it or inside it, members and parameters apart.
Functions and classes have the names that they are recorded with. -/
def Source.Stmt.bound (T : DeclTable) : Stmt → List String
  | .block _ body => stmtsBound T body
  | .imports _ i => i.bound
  | .bindings _ ds => ds.flatMap (·.binding.names)
  | .function f => (T.callable? f.id).toList.map (·.script) ++ f.bound T
  | .classDef c => (T.class? c.id).toList.map (·.name) ++ c.bound T
  | .expression .. | .returning .. | .typeOnly _ | .empty _ | .other .. => []

/-- The names that some statements bind. -/
def Source.stmtsBound (T : DeclTable) : List Stmt → List String
  | [] => []
  | st :: rest => st.bound T ++ stmtsBound T rest

/-- The names that are bound inside a function, method or constructor. -/
def Source.FunctionDecl.bound (T : DeclTable) : FunctionDecl → List String
  | ⟨_, _, _, some body, _, _⟩ => stmtsBound T body
  | ⟨_, _, _, none, _, _⟩ => []

/-- The names that are bound inside a class. -/
def Source.ClassDecl.bound (T : DeclTable) : ClassDecl → List String
  | ⟨_, _, _, _, _, members, _⟩ => membersBound T members

def Source.Member.bound (T : DeclTable) : Member → List String
  | .method f _ => f.bound T
  | .constructor f => f.bound T
  | .property _ | .other .. => []

def Source.membersBound (T : DeclTable) : List Member → List String
  | [] => []
  | m :: rest => m.bound T ++ membersBound T rest

end

/-- The keys of the members that a recorded class offers. -/
def DeclTable.keys (T : DeclTable) (c : ClassDecl) : List String :=
  (T.class? c.id).toList.flatMap fun info => c.offered.map (memberKey info.name)

/-- No two classes of a unit have one name, no two members have one key, and no key is a name of its
own.  The names are those in the table: a function or class without a name has a minted one. -/
structure MembersApart (T : DeclTable) (sts : List Stmt) : Prop where
  classes : ((stmtClasses sts).filterMap fun c => (T.class? c.id).map (·.name)).Nodup
  members : ((stmtClasses sts).flatMap T.keys).Nodup
  others : ∀ x ∈ (stmtClasses sts).flatMap T.keys, x ∉ stmtsBound T sts

section Traversal

variable {T : DeclTable}

theorem Source.FunctionDecl.bound_of_body {f : FunctionDecl} {body : List Stmt}
    (h : f.body = some body) : f.bound T = stmtsBound T body := by
  obtain ⟨id, name, params, body', isAsync, line⟩ := f
  cases h
  rfl

theorem Source.ClassDecl.bound_eq (c : ClassDecl) : c.bound T = membersBound T c.members := by
  obtain ⟨id, name, parent, isDeclared, isAbstract, members, line⟩ := c
  rfl

theorem Source.bound_subset_members {ms : List Member} {m : Member} (hm : m ∈ ms) :
    m.bound T ⊆ membersBound T ms := by
  induction ms with
  | nil => exact absurd hm List.not_mem_nil
  | cons first rest ih =>
    rw [membersBound]
    rcases List.mem_cons.mp hm with rfl | hm
    · exact List.subset_append_left _ _
    · exact List.Subset.trans (ih hm) (List.subset_append_right _ _)

/-- The names that a piece of work binds, given that its own declarations are made. -/
def Task.bound (T : DeclTable) : Task → List String
  | .stmts body | .callable _ _ _ _ body => stmtsBound T body
  | .stmt st => st.bound T
  | .declarators ds => ds.flatMap (·.binding.names)
  | .declarator d => d.binding.names
  | .members _ _ ms _ | .bodies _ _ ms _ | .initializer _ _ ms _ | .methods _ _ ms => membersBound T ms
  | .method _ _ m => m.bound T
  | .fieldsScript .. | .fields .. | .field .. => []

/-- One piece of work is part of another. -/
structure Task.PartOf (T : DeclTable) (part whole : Task) : Prop where
  classes : part.classes ⊆ whole.classes
  bound : part.bound T ⊆ whole.bound T

namespace Task.PartOf

variable {task first rest : Task} {info : ClassInfo} {scope : ClassScope}

theorem refl (task : Task) : task.PartOf T task := ⟨List.Subset.refl _, List.Subset.refl _⟩

theorem trans (h : first.PartOf T rest) (h' : rest.PartOf T task) : first.PartOf T task :=
  ⟨List.Subset.trans h.classes h'.classes, List.Subset.trans h.bound h'.bound⟩

theorem split (h : task.split = some (first, rest)) : first.PartOf T task ∧ rest.PartOf T task := by
  obtain ⟨hc, hc'⟩ := Task.split_classes h
  refine ⟨⟨hc, ?_⟩, hc', ?_⟩
  all_goals
    cases Task.splits h with
    | stmts => simp [Task.bound, stmtsBound]
    | declarators => simp [Task.bound]
    | methods => simp [Task.bound, membersBound]
    | _ => simp [Task.bound]

theorem inside {inner : Task} (h : task.inside = some inner) : inner.PartOf T task := by
  cases Task.encloses h <;> exact ⟨List.Subset.refl _, List.Subset.refl _⟩

theorem function {f : FunctionDecl} {body : List Stmt} (hbody : f.body = some body) (line : Nat)
    (enclosing : Option ClassScope) (prologue : List Command) :
    (Task.callable f.id line enclosing prologue body).PartOf T (.stmt (.function f)) := by
  have hclasses : (Task.stmt (.function f)).classes = stmtClasses body :=
    FunctionDecl.classes_of_body hbody
  refine ⟨hclasses ▸ List.Subset.refl _, ?_⟩
  rw [Task.bound, Task.bound, Stmt.bound, FunctionDecl.bound_of_body hbody]
  exact List.subset_append_right _ _

theorem method {f : FunctionDecl} {body : List Stmt} (hbody : f.body = some body) (line : Nat)
    (enclosing : Option ClassScope) (prologue : List Command) (isStatic : Bool) :
    (Task.callable f.id line enclosing prologue body).PartOf T
      (.method info scope (.method f isStatic)) := by
  have hclasses : (Task.method info scope (.method f isStatic)).classes = stmtClasses body :=
    FunctionDecl.classes_of_body hbody
  refine ⟨hclasses ▸ List.Subset.refl _, ?_⟩
  rw [Task.bound, Task.bound, Member.bound, FunctionDecl.bound_of_body hbody]
  exact List.Subset.refl _

theorem classDef (c : ClassDecl) (line : Nat) :
    (Task.members info scope c.members line).PartOf T (.stmt (.classDef c)) := by
  have hclasses : (Task.stmt (.classDef c)).classes = c :: memberClasses c.members := c.classes_eq
  refine ⟨hclasses ▸ List.subset_cons_self _ _, ?_⟩
  rw [Task.bound, Task.bound, Stmt.bound, c.bound_eq]
  exact List.subset_append_right _ _

theorem script {s : Session} {script : Script} (h : Opens task s script) :
    script.body.PartOf T task := by
  cases h with
  | callable => exact ⟨List.Subset.refl _, List.Subset.refl _⟩
  | fields => exact ⟨List.Subset.refl _, List.Subset.refl _⟩

theorem constructor {ms : List Member} {line bodyLine : Nat} {id : DeclId} {body : List Stmt}
    (h : knownConstructor info ms = some (id, bodyLine, body)) (enclosing : Option ClassScope)
    (prologue : List Command) :
    (Task.callable id bodyLine enclosing prologue body).PartOf T (.initializer info scope ms line) := by
  obtain ⟨f, hf, -, hbody⟩ := knownConstructor_mem h
  constructor
  · rw [Task.classes, ← FunctionDecl.classes_of_body hbody]
    exact mem_memberClasses hf
  · rw [Task.bound, ← FunctionDecl.bound_of_body hbody]
    exact bound_subset_members hf

end Task.PartOf

theorem Source.mem_classes (c : ClassDecl) : c ∈ (Stmt.classDef c).classes := by
  rw [Stmt.classes, c.classes_eq]
  exact List.mem_cons_self

end Traversal

namespace MembersApart

variable {T : DeclTable} {sts : List Stmt} {c d : ClassDecl} {info : ClassInfo}

theorem mem_keys (hinfo : T.class? c.id = some info) {name : String} (hname : name ∈ c.offered) :
    memberKey info.name name ∈ T.keys c := by
  rw [DeclTable.keys, hinfo]
  exact List.mem_flatMap.mpr ⟨info, List.mem_cons_self, List.mem_map_of_mem hname⟩

theorem offered_nodup (h : MembersApart T sts) (hc : c ∈ stmtClasses sts)
    (hinfo : T.class? c.id = some info) : c.offered.Nodup := by
  have hkeys := (List.nodup_flatMap.mp h.members).1 c hc
  rw [DeclTable.keys, hinfo] at hkeys
  have hmap : (c.offered.map (memberKey info.name)).Nodup := by simpa using hkeys
  exact hmap.of_map

/-- No other class has the key of a member. -/
theorem key_apart (h : MembersApart T sts) (hc : c ∈ stmtClasses sts) (hd : d ∈ stmtClasses sts)
    (hne : d.id ≠ c.id) {x : String} (hx : x ∈ T.keys c) : x ∉ T.keys d := by
  have hpairs := (List.nodup_flatMap.mp h.members).2
  have hsymm : Std.Symm (Function.onFun List.Disjoint T.keys) := ⟨fun _ _ => List.disjoint_symm⟩
  have hdisjoint := hpairs.forall hc hd fun heq => hne (heq ▸ rfl)
  exact fun hin => hdisjoint hx hin

/-- A class is known by its name. -/
theorem class_eq (h : MembersApart T sts) (hc : c ∈ stmtClasses sts) (hd : d ∈ stmtClasses sts)
    {info' : ClassInfo} (hinfo : T.class? c.id = some info) (hinfo' : T.class? d.id = some info')
    (hname : info'.name = info.name) : d = c := by
  by_contra hne
  have hpairs := List.pairwise_filterMap.mp h.classes
  have hsymm : Std.Symm fun a b : ClassDecl => ∀ x, (T.class? a.id).map (·.name) = some x →
      ∀ y, (T.class? b.id).map (·.name) = some y → x ≠ y :=
    ⟨fun _ _ hab x hx y hy heq => hab y hy x hx heq.symm⟩
  refine hpairs.forall hd hc hne info'.name ?_ info.name ?_ hname
  · rw [hinfo']
    rfl
  · rw [hinfo]
    rfl

end MembersApart

/-! ## Keys keep their meaning -/

theorem DeclTable.Sub.class?_none {T T' : DeclTable} (h : T.Sub T') {id : DeclId}
    (hnone : T'.class? id = none) : T.class? id = none := by
  cases hinfo : T.class? id with
  | none => rfl
  | some info =>
    rw [h.classInfo hinfo] at hnone
    cases hnone

theorem Session.stored_symbols (s : Session) (name : String) (body : List Command) (line : Nat) :
    (s.stored name body line).symbols = s.symbols := by
  obtain ⟨ws, hws⟩ := s.stored_eq_noting name body line
  rw [hws]
  rfl

theorem Session.withVariable_meanings (s : Session) {name x : String} (h : name ≠ x) :
    (s.withVariable name).symbols.meanings x = s.symbols.meanings x := by
  have hname : (⟨name, s.variableSlot name, .variableName, none⟩ : Symbol).name ≠ x := h
  exact SymbolTable.meanings_register hname

section Keeping

variable {T : DeclTable} {x : String} {s t : Session}

/-- The name is bound by no statement of the work, and it is the key of no class of the work that is
still to be declared. -/
structure Task.Spares (task : Task) (x : String) (T t : DeclTable) : Prop where
  bound : x ∉ task.bound T
  keys : ∀ c ∈ task.classes, t.class? c.id = none → x ∉ T.keys c

theorem Task.Spares.part {task part : Task} {t t' : DeclTable} (h : task.Spares x T t)
    (hpart : part.PartOf T task) (hsub : t.Sub t') : part.Spares x T t' where
  bound := fun hin => h.bound (hpart.bound hin)
  keys := fun c hc hnone => h.keys c (hpart.classes hc) (hsub.class?_none hnone)

/-- The table leads to `T`, where the function has its name. -/
theorem FunctionDeclared.spares {f : FunctionDecl} (h : FunctionDeclared s f t) (hend : t.decls.Sub T)
    (hx : (Task.stmt (.function f)).Spares x T s.decls) :
    t.symbols.meanings x = s.symbols.meanings x := by
  refine h.meanings_eq fun k hk heq => hx.bound (List.mem_append_left _ ?_)
  rw [hend.callable hk, ← heq]
  exact List.mem_cons_self

theorem ClassDeclared.spares {c : ClassDecl} (h : ClassDeclared s c t) (hend : t.decls.Sub T)
    (hx : (Task.stmt (.classDef c)).Spares x T s.decls) :
    t.symbols.meanings x = s.symbols.meanings x := by
  refine h.meanings_eq (fun info hinfo heq => hx.bound (List.mem_append_left _ ?_))
    fun hnone info hinfo name hname heq => hx.keys c (mem_classes c) hnone ?_
  · rw [hend.classInfo hinfo, ← heq]
    exact List.mem_cons_self
  · rw [← heq]
    exact MembersApart.mem_keys (hend.classInfo hinfo) hname

theorem StmtDeclared.spares {st : Stmt} (h : StmtDeclared s st t) (hend : t.decls.Sub T)
    (hx : (Task.stmt st).Spares x T s.decls) : t.symbols.meanings x = s.symbols.meanings x := by
  cases h with
  | imports line i =>
    refine s.registeredAll_meanings fun symbol hsymbol heq => hx.bound ?_
    rw [Task.bound, Stmt.bound, ← heq]
    exact importSymbols_bound hsymbol
  | function hf => exact hf.spares hend hx
  | classDef hc => exact hc.spares hend hx
  | nothing st => rfl

/-- **A name keeps its meaning while nothing declares it.** -/
theorem Runs.meanings_eq {task : Task} {log : List Event} {out : Emitted Flow}
    (h : Runs task s log out t) (hfit : task.Fit s.decls) (hend : t.decls.Sub T)
    (hx : task.Spares x T s.decls) :
    t.symbols.meanings x = s.symbols.meanings x ∧
      ∀ q e, .lowers q e ∈ log → q.symbols.lookup x = s.symbols.lookup x := by
  induction h with
  | idle h =>
    obtain ⟨ws, rfl⟩ := h.eq_noting
    exact ⟨rfl, fun q e hin => absurd hin List.not_mem_nil⟩
  | seq hsplit hfirst hrest ihfirst ihrest =>
    obtain ⟨hpart, hpart'⟩ := Task.PartOf.split (T := T) hsplit
    have hfit' := hfit.rest hsplit hfirst
    have hsub := hfirst.sub (hfit.first hsplit)
    obtain ⟨ht, hlog⟩ := ihfirst (hfit.first hsplit) ((hrest.sub hfit').trans hend)
      (hx.part hpart (.refl _))
    obtain ⟨hu, hlog'⟩ := ihrest hfit' hend (hx.part hpart' hsub)
    refine ⟨hu.trans ht, fun q e hin => ?_⟩
    rcases List.mem_append.mp hin with hin | hin
    · exact hlog q e hin
    · exact (hlog' q e hin).trans (SymbolTable.lookup_congr ht)
  | @returned st s t log commands rest _ ih =>
    obtain ⟨ws, hws⟩ := t.skipping_eq_noting rest
    rw [hws] at hend ⊢
    exact ih (hfit.first rfl) hend (hx.part (Task.PartOf.split rfl).1 (.refl _))
  | inside hinside _ ih =>
    exact ih (hfit.inside hinside) hend (hx.part (.inside hinside) (.refl _))
  | @declares d name hname _ s =>
    refine ⟨s.withVariable_meanings fun heq => hx.bound ?_, fun q e hin => absurd hin List.not_mem_nil⟩
    rw [Task.bound, hname, ← heq]
    exact List.mem_cons_self
  | @evaluates task s t use e flow commands fx htask he =>
    -- a variable is there before its initializer is lowered
    have ht : t.symbols.meanings x = s.symbols.meanings x := by
      rcases htask.prepared with ⟨ws, rfl⟩ | ⟨d, name, rfl, hname, rfl⟩
      · rfl
      · refine s.withVariable_meanings fun heq => hx.bound ?_
        rw [Task.bound, hname, ← heq]
        exact List.mem_cons_self
    refine ⟨ht, fun q e' hin => ?_⟩
    cases List.mem_singleton.mp hin
    exact SymbolTable.lookup_congr ht
  | @function f body s t u log out hbody hdeclared hrun ih =>
    have hfit' := hfit.function hbody hdeclared f.line t.scope.enclosing []
    rw [← t.warnedIf_decls f.isAsync f.line "async function is lowered synchronously"] at hfit'
    have hsub := hrun.sub hfit'
    obtain ⟨ws, hws⟩ := t.warnedIf_eq_noting f.isAsync f.line "async function is lowered synchronously"
    rw [hws] at ih hfit' hsub
    have ht := hdeclared.spares (hsub.trans hend) hx
    obtain ⟨hu, hlog⟩ := ih hfit' hend (hx.part (.function hbody _ _ _) hdeclared.sub)
    exact ⟨hu.trans ht, fun q e hin => (hlog q e hin).trans (SymbolTable.lookup_congr ht)⟩
  | @method info scope f isStatic body s t log out hbody _ ih =>
    obtain ⟨ws, hws⟩ := s.warnedIf_eq_noting f.isAsync f.line "async method is lowered synchronously"
    rw [hws] at ih
    exact ih (hfit.method hbody _ _ _) hend (hx.part (.method hbody _ _ _ _) (.refl _))
  | @classDef c info s t u log out hown hdeclared hinfo hrun ih =>
    have hfit' := hfit.classDef hdeclared hinfo ⟨info.name, c.parent⟩ c.line
    have ht := hdeclared.spares ((hrun.sub hfit').trans hend) hx
    obtain ⟨hu, hlog⟩ := ih hfit' hend (hx.part (.classDef c c.line) (hfit.class_sub hdeclared))
    exact ⟨hu.trans ht, fun q e hin => (hlog q e hin).trans (SymbolTable.lookup_congr ht)⟩
  | @script task s t script log out hopens _ ih =>
    have hbody := hfit.script hopens
    rw [Session.stored_decls] at hend
    obtain ⟨ht, hlog⟩ := ih hbody hend (hx.part (.script hopens) (.refl _))
    -- the scope of the script is empty at first and is left at the end
    refine ⟨?_, fun q e hin => ?_⟩
    · rw [Session.stored_symbols]
      exact SymbolTable.meanings_exit ht
    · rcases List.mem_append.mp hin with hin | hin
      · exact absurd hin (LexicalScope.lowers_notMem_entered _ q e)
      · exact (hlog q e hin).trans (s.symbols.lookup_enter x)
  | constructor hfound _ ih =>
    exact ih (hfit.constructor hfound _ _) hend (hx.part (.constructor hfound _ _) (.refl _))
  | defaulted scope line _ s =>
    rw [Session.stored_symbols]
    exact ⟨rfl, fun q e hin => absurd hin List.not_mem_nil⟩

end Keeping

/-! ## Classes on the way -/

section Classes

variable {T : DeclTable} {sts : List Stmt} {c : ClassDecl} {info : ClassInfo} {s t : Session}

theorem Source.mem_stmtClasses {sts : List Stmt} {c : ClassDecl} (h : .classDef c ∈ sts) :
    c ∈ stmtClasses sts := by
  induction sts with
  | nil => exact absurd h List.not_mem_nil
  | cons st rest ih =>
    rcases List.mem_cons.mp h with rfl | h
    · exact List.mem_append_left _ (mem_classes c)
    · exact List.mem_append_right _ (ih h)

theorem Source.mem_declIds_of_class {body : List Stmt} (hc : .classDef c ∈ body) : c.id ∈ declIds body :=
  mem_declIds hc (c.ownIds_subset List.mem_cons_self)

/-- Work on a statement leaves the records of the classes behind it alone. -/
theorem Runs.class?_behind {st : Stmt} {others : List Stmt} {log : List Event} {out : Emitted Flow}
    (h : Runs (.stmt st) s log out t) (hfit : (Task.stmts (st :: others)).Fit s.decls)
    (hc : .classDef c ∈ others) : t.decls.class? c.id = s.decls.class? c.id := by
  -- the statement has other ids than those behind it
  have hsplit : (Task.stmts (st :: others)).split = some (.stmt st, .stmts others) := rfl
  obtain ⟨-, -, hdisjoint⟩ := List.nodup_append'.mp ((Task.split_ids hsplit).nodup_iff.mp hfit.nodup)
  exact DeclTable.class?_congr (h.decls_eq fun habs => hdisjoint habs (mem_declIds_of_class hc))

/-- What is known of a declared class is known in the end if every statement keeps it. -/
theorem UnitDeclared.keeps_class {I : Session → Prop} {rest : List Stmt} (h : UnitDeclared s rest t)
    (hnodup : (declIds rest).Nodup) (hfree : ∀ i ∈ declIds rest, s.decls[i]? = none)
    (hend : t.decls.Sub T) (hpart : (Task.stmts rest).PartOf T (.stmts sts))
    (hinfo : s.decls.class? c.id = some info) (hs : I s)
    (hstep : ∀ {m n : Session} {st : Stmt}, StmtDeclared m st n → m.decls.Sub n.decls → n.decls.Sub T →
      (Task.stmt st).PartOf T (.stmts sts) → m.decls.class? c.id = some info → I m → I n) : I t := by
  induction h with
  | nil s => exact hs
  | @cons s m t st rest hfirst hrest ih =>
    rw [declIds] at hnodup hfree
    obtain ⟨hst, hnodup', hdisjoint⟩ := List.nodup_append'.mp hnodup
    have hsplit : (Task.stmts (st :: rest)).split = some (.stmt st, .stmts rest) := rfl
    obtain ⟨hhead, htail⟩ := Task.PartOf.split (T := T) hsplit
    have hfree' : ∀ i ∈ declIds rest, m.decls[i]? = none := fun i hi => by
      rw [hfirst.decls_eq fun hin => hdisjoint hin hi]
      exact hfree i (List.mem_append_right _ hi)
    have hfiled : st.Filed s.decls := Stmt.filed_of_free fun i hi => hfree i (List.mem_append_left _ hi)
    have hsub := hfirst.sub hst hfiled
    have hend' := (hrest.sub hnodup' hfree').trans hend
    exact ih hnodup' hfree' hend (htail.trans hpart) (hsub.classInfo hinfo)
      (hstep hfirst hsub hend' (hhead.trans hpart) hinfo hs)

/-- **A class is declared once.**  What is known of it then is known in the end if the statements behind
it keep it. -/
theorem UnitDeclared.settles_class {I : Session → Prop} {rest : List Stmt} (h : UnitDeclared s rest t)
    (hnodup : (declIds rest).Nodup) (hfree : ∀ i ∈ declIds rest, s.decls[i]? = none)
    (hend : t.decls.Sub T) (hpart : (Task.stmts rest).PartOf T (.stmts sts)) (hin : .classDef c ∈ rest)
    (hinfo : t.decls.class? c.id = some info)
    (hclass : ∀ {m n : Session}, ClassDeclared m c n → m.unit = s.unit → m.decls.class? c.id = none →
      n.decls.class? c.id = some info → I n)
    (hstep : ∀ {m n : Session} {st : Stmt}, StmtDeclared m st n → m.decls.Sub n.decls → n.decls.Sub T →
      (Task.stmt st).PartOf T (.stmts sts) → m.decls.class? c.id = some info → I m → I n) : I t := by
  induction h with
  | nil s => exact absurd hin List.not_mem_nil
  | @cons s m t st rest hfirst hrest ih =>
    rw [declIds] at hnodup hfree
    obtain ⟨-, hnodup', hdisjoint⟩ := List.nodup_append'.mp hnodup
    have hsplit : (Task.stmts (st :: rest)).split = some (.stmt st, .stmts rest) := rfl
    have hpart' := (Task.PartOf.split hsplit).2.trans hpart
    have hfree' : ∀ i ∈ declIds rest, m.decls[i]? = none := fun i hi => by
      rw [hfirst.decls_eq fun hin => hdisjoint hin hi]
      exact hfree i (List.mem_append_right _ hi)
    rcases List.mem_cons.mp hin with rfl | hin
    · -- the class itself: no later statement has its id
      have hid : c.id ∈ (Stmt.classDef c).declIds := c.ownIds_subset List.mem_cons_self
      have hinfo' : m.decls.class? c.id = some info := by
        rw [← DeclTable.class?_congr (hrest.decls_eq fun habs => hdisjoint hid habs)]
        exact hinfo
      have hfresh := DeclTable.class?_none (hfree c.id (List.mem_append_left _ hid))
      refine hrest.keeps_class hnodup' hfree' hend hpart' hinfo' ?_ hstep
      cases hfirst with
      | classDef hdeclared => exact hclass hdeclared rfl hfresh hinfo'
      | nothing _ => cases hfresh.symm.trans hinfo'
    · have hone : UnitDeclared s [st] m := .cons hfirst (.nil _)
      have hunit := (Session.Untouched.statements hone).unit
      exact ih hnodup' hfree' hend hpart' hin hinfo
        fun hdeclared hm hnone hn => hclass hdeclared (hm.trans hunit) hnone hn

end Classes

/-! ## What a class offers stays offered -/

section Offering

variable {T : DeclTable} {sts : List Stmt} {context : String} {c : ClassDecl} {info : ClassInfo}
  {task : Task} {s t : Session}

/-- Parts of a unit spare the keys of a class that is declared: what they bind are no keys, and a class
that is still to be declared is another one. -/
theorem MembersApart.spares (h : MembersApart T sts) (hpart : task.PartOf T (.stmts sts))
    (hc : c ∈ stmtClasses sts) (hend : s.decls.Sub T) (hinfo : s.decls.class? c.id = some info)
    {name : String} (hname : name ∈ c.offered) :
    task.Spares (memberKey info.name name) T s.decls := by
  have hkey : memberKey info.name name ∈ T.keys c := mem_keys (hend.classInfo hinfo) hname
  refine ⟨fun hin => ?_, fun d hd hnone => h.key_apart hc (hpart.classes hd) ?_ hkey⟩
  · exact h.others _ (List.mem_flatMap.mpr ⟨c, hc, hkey⟩) (hpart.bound hin)
  · intro heq
    rw [heq, hinfo] at hnone
    cases hnone

/-- **What a class offers it offers to the end.** -/
theorem Runs.keeps_offers {log : List Event} {out : Emitted Flow} (h : Runs task s log out t)
    (hfit : task.Fit s.decls) (hend : t.decls.Sub T) (hapart : MembersApart T sts)
    (hpart : task.PartOf T (.stmts sts)) (hc : c ∈ stmtClasses sts)
    (hinfo : s.decls.class? c.id = some info) (hoffers : s.symbols.OffersClass context info c) :
    t.symbols.OffersClass context info c ∧
      ∀ q e, .lowers q e ∈ log → q.symbols.OffersClass context info c := by
  have hkept : ∀ name ∈ c.offered, _ := fun name hname =>
    h.meanings_eq hfit hend (hapart.spares hpart hc ((h.sub hfit).trans hend) hinfo hname)
  refine ⟨hoffers.congr fun name hname => ?_, fun q e hin => hoffers.congr fun name hname => ?_⟩
  · exact SymbolTable.lookup_congr (hkept name hname).1
  · exact (hkept name hname).2 q e hin

/-- **Declaring a unit offers its classes.** -/
theorem UnitDeclared.offers {rest : List Stmt} (h : UnitDeclared s rest t)
    (hframe : s.frame = some context) (hnodup : (declIds rest).Nodup)
    (hfree : ∀ i ∈ declIds rest, s.decls[i]? = none) (hend : t.decls.Sub T)
    (hapart : MembersApart T sts) (hpart : (Task.stmts rest).PartOf T (.stmts sts))
    (hin : .classDef c ∈ rest) (hinfo : t.decls.class? c.id = some info) :
    t.symbols.OffersClass context info c := by
  have hc : c ∈ stmtClasses sts := hpart.classes (mem_stmtClasses hin)
  refine h.settles_class (I := fun m => m.symbols.OffersClass context info c) hnodup hfree hend hpart hin
    hinfo (fun hdeclared hunit hnone hn => ?_) fun hdeclared hsub hend' hpart' hm hoffers => ?_
  · have hnames := hapart.offered_nodup hc (hend.classInfo hinfo)
    refine hdeclared.offers ((Surroundings.frame_congr hunit).trans hframe) hnames (fun _ hknown => ?_) hn
    cases hnone.symm.trans hknown
  · refine hoffers.congr fun name hname => SymbolTable.lookup_congr (hdeclared.spares hend' ?_)
    exact hapart.spares hpart' hc (hsub.trans hend') hm hname

end Offering

end FrameScript
