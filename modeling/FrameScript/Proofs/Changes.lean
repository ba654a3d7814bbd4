/-
  What declaring does, one change at a time.

  Declaring a function, a class or a whole unit is a row of small changes of the session: ids are
  counted, names get a meaning, declarations are recorded.  The file says once which changes each
  kind of declaration can make (`FunctionChange`, `ClassChange`, `UnitChange`).  An invariant of
  sessions then needs a lemma about one change (`Changes.keeps`), and no proof of its own about how
  declarations are made of parts.
-/
import FrameScript.Proofs.Records

namespace FrameScript

open Source

/-! ## Changes -/

/-- One change of a session. -/
inductive Change where
  /-- Ids are minted. -/
  | counts (n : Nat)
  /-- A name gets a meaning. -/
  | names (symbol : Symbol)
  /-- A declaration is recorded. -/
  | records (id : DeclId) (d : Declaration)

def Session.changed (s : Session) : Change → Session
  | .counts n => s.counted n
  | .names symbol => s.registered symbol
  | .records id d => s.recorded id d

/-- From one session to another by changes of some kind. -/
inductive Changes (P : Change → Prop) : Session → Session → Prop where
  | refl (s : Session) : Changes P s s
  | snoc {s t : Session} {change : Change} (h : Changes P s t) (hchange : P change) :
      Changes P s (t.changed change)

namespace Changes

variable {P Q : Change → Prop} {s t u : Session}

theorem single {change : Change} (h : P change) : Changes P s (s.changed change) := (refl s).snoc h

theorem trans (h : Changes P s t) (h' : Changes P t u) : Changes P s u := by
  induction h' with
  | refl => exact h
  | snoc _ hchange ih => exact ih.snoc hchange

theorem mono (h : Changes P s t) (hPQ : ∀ change, P change → Q change) : Changes Q s t := by
  induction h with
  | refl => exact refl s
  | snoc _ hchange ih => exact ih.snoc (hPQ _ hchange)

/-- **What a change keeps, all changes keep.** -/
theorem keeps {I : Session → Prop} (h : Changes P s t)
    (hstep : ∀ (s : Session) (change : Change), P change → I s → I (s.changed change)) (hs : I s) :
    I t := by
  induction h with
  | refl => exact hs
  | snoc _ hchange ih => exact hstep _ _ hchange ih

theorem named (hcount : P (.counts 1)) (s : Session) (name : Option String) :
    Changes P s (s.named name).2 := by
  cases name with
  | some name => exact refl s
  | none => exact single hcount

theorem withCallable {id : DeclId} {k : Callable} (hcount : P (.counts k.slots.length))
    (hrecord : P (.records id (.callable k))) (s : Session) : Changes P s (s.withCallable id k) :=
  (single hcount).snoc hrecord

theorem registeredAll {symbols : List Symbol} (h : ∀ symbol ∈ symbols, P (.names symbol))
    (s : Session) : Changes P s (s.registeredAll symbols) := by
  induction symbols generalizing s with
  | nil => exact refl s
  | cons symbol rest ih =>
    have hfirst : Changes P s (s.registered symbol) := single (h symbol List.mem_cons_self)
    exact hfirst.trans (ih (fun other hother => h other (List.mem_cons_of_mem _ hother)) _)

end Changes

/-- What is recorded after a record was made, was made so or recorded before. -/
theorem Session.recorded_callable_cases {s : Session} {id i : DeclId} {d : Declaration} {k : Callable}
    (h : (s.recorded id d).decls.callable? i = some k) :
    d = .callable k ∨ s.decls.callable? i = some k := by
  by_cases hi : i = id
  · subst hi
    rw [DeclTable.callable?, s.recorded_self] at h
    cases d with
    | callable k' => exact .inl (congrArg _ (Option.some.inj h))
    | classInfo info => cases h
  · rw [DeclTable.callable?_congr (s.recorded_other d hi)] at h
    exact .inr h

theorem Session.recorded_class_cases {s : Session} {id i : DeclId} {d : Declaration}
    {info : ClassInfo} (h : (s.recorded id d).decls.class? i = some info) :
    d = .classInfo info ∨ s.decls.class? i = some info := by
  by_cases hi : i = id
  · subst hi
    rw [DeclTable.class?, s.recorded_self] at h
    cases d with
    | callable k => cases h
    | classInfo info' => exact .inl (congrArg _ (Option.some.inj h))
  · rw [DeclTable.class?_congr (s.recorded_other d hi)] at h
    exact .inr h

/-! ## Functions -/

/-- The name that a declaration goes by; one without a name takes an id. -/
def GoesBy (name : Option String) (x : String) : Prop :=
  match name with
  | some name => x = name
  | none => ∃ n, x = mintedId defaultStem n

theorem Session.named_goesBy (s : Session) (name : Option String) : GoesBy name (s.named name).1 := by
  cases name with
  | some name => rfl
  | none => exact ⟨_, rfl⟩

/-- The callable belongs to the function: it has its parameters, and slots of its own. -/
structure Callable.Serves (k : Callable) (f : FunctionDecl) : Prop where
  names_eq : k.params.map (·.name) = f.params.map Param.name?
  minted : ∀ x ∈ k.slots, ∃ stem n, x = mintedId stem n

theorem Callable.MadeOf.serves {k : Callable} {s : Session} {script : String} {f : FunctionDecl}
    (h : k.MadeOf s script f) : k.Serves f where
  names_eq := h.names_eq
  minted := fun x hx => by
    rw [h.slots_eq] at hx
    obtain ⟨stem, -, n, rfl⟩ := Allocator.mem_idsAfter hx
    exact ⟨stem, n, rfl⟩

/-- The changes that declaring a function makes. -/
inductive FunctionChange (q : Surroundings) (f : FunctionDecl) : Change → Prop where
  | counts (n : Nat) : FunctionChange q f (.counts n)
  | symbol {name : String} (hname : GoesBy f.name name) :
      FunctionChange q f (.names ⟨name, q.qualify name, .function, some f.id⟩)
  | record {k : Callable} (hk : k.Serves f) : FunctionChange q f (.records f.id (.callable k))

theorem FunctionDeclared.changes {q : Surroundings} {s t : Session} {f : FunctionDecl}
    (h : FunctionDeclared s f t) (hunit : s.unit = q.unit) :
    t = s ∨ f.body ≠ none ∧ Changes (FunctionChange q f) s t := by
  cases h with
  | known _ => exact .inl rfl
  | fresh k _ hbody hk =>
    refine .inr ⟨hbody, ?_⟩
    have hunit' := (Session.Untouched.named s f.name).unit.trans hunit
    have hsymbol : FunctionChange q f (.names ⟨(s.named f.name).1, k.path, .function, some f.id⟩) := by
      rw [hk.path_eq, Surroundings.qualify_congr hunit']
      exact .symbol (s.named_goesBy f.name)
    exact ((Changes.named (.counts 1) s f.name).snoc hsymbol).trans
      (.withCallable (.counts _) (.record hk.serves) _)

/-! ## Classes -/

/-- The changes that declaring a member makes, in a class with a name and some fields. -/
inductive MemberChange (q : Surroundings) (className : String) (fields : List (String × String)) :
    Member → Change → Prop where
  | counts (m : Member) (n : Nat) : MemberChange q className fields m (.counts n)
  | method {f : FunctionDecl} (isStatic : Bool) {name : String} (hname : f.name = some name)
      (hbody : f.body ≠ none) :
      MemberChange q className fields (.method f isStatic)
        (.names ⟨memberKey className name, q.qualify (methodScript className name),
          methodKind isStatic, some f.id⟩)
  | methodRecord {f : FunctionDecl} (isStatic : Bool) {k : Callable} (hbody : f.body ≠ none)
      (hk : k.Serves f) :
      MemberChange q className fields (.method f isStatic) (.records f.id (.callable k))
  | constructorRecord {f : FunctionDecl} {k : Callable} (hbody : f.body ≠ none) (hk : k.Serves f) :
      MemberChange q className fields (.constructor f) (.records f.id (.callable k))
  | property (p : Property) {slot : String} (hfield : (p.name, slot) ∈ fields) :
      MemberChange q className fields (.property p)
        (.names ⟨memberKey className p.name, slot, .field, none⟩)

/-- What is known about the class is what its declaration says. -/
structure ClassInfo.Describes (info : ClassInfo) (c : ClassDecl) : Prop where
  name : GoesBy c.name info.name
  minted : ∀ f ∈ info.fields, ∃ stem n, f.2 = mintedId stem n
  constructor : ∀ id, info.constructor = some id →
    ∃ f, .constructor f ∈ c.members ∧ f.id = id ∧ f.body ≠ none

/-- The changes that declaring a class makes. -/
inductive ClassChange (q : Surroundings) (c : ClassDecl) (info : ClassInfo) : Change → Prop where
  | counts (n : Nat) : ClassChange q c info (.counts n)
  | symbol : ClassChange q c info (.names ⟨info.name, q.qualify info.name, .classDef, some c.id⟩)
  | member {m : Member} {change : Change} (hm : m ∈ c.members)
      (h : MemberChange q info.name info.fields m change) : ClassChange q c info change
  | record : ClassChange q c info (.records c.id (.classInfo info))

/-- The fields of a class that are known after one member, with where they come from. -/
theorem MemberDeclared.fields_subset {info info' : ClassInfo} {s t : Session} {m : Member}
    (h : MemberDeclared info s m info' t) : info.fields ⊆ info'.fields := by
  cases h with
  | property p => exact List.subset_append_left _ _
  | _ => exact List.Subset.refl _

theorem MembersDeclared.fields_subset {info info' : ClassInfo} {s t : Session} {ms : List Member}
    (h : MembersDeclared info s ms info' t) : info.fields ⊆ info'.fields := by
  induction h with
  | nil info s => exact List.Subset.refl _
  | cons hfirst _ ih => exact List.Subset.trans hfirst.fields_subset ih

theorem MemberDeclared.changes {q : Surroundings} {info info' : ClassInfo} {s t : Session} {m : Member}
    (h : MemberDeclared info s m info' t) (hunit : s.unit = q.unit) {fields : List (String × String)}
    (hfields : info'.fields ⊆ fields) : Changes (MemberChange q info.name fields m) s t := by
  cases h with
  | @method f isStatic name k hname hbody hk =>
    have hsymbol : MemberChange q info.name fields (.method f isStatic)
        (.names ⟨memberKey info.name name, k.path, methodKind isStatic, some f.id⟩) := by
      rw [hk.path_eq, Surroundings.qualify_congr hunit]
      exact .method isStatic hname hbody
    exact (Changes.single hsymbol).trans
      (.withCallable (.counts _ _) (.methodRecord isStatic hbody hk.serves) _)
  | constructor k hbody hk =>
    exact .withCallable (.counts _ _) (.constructorRecord hbody hk.serves) _
  | property p =>
    have hslot : (p.name, s.nextId (some (methodScript info.name p.name))) ∈ fields :=
      hfields (List.mem_append_right _ List.mem_cons_self)
    have hcount : Changes (MemberChange q info.name fields (.property p)) s (s.changed (.counts 1)) :=
      .single (.counts _ 1)
    exact hcount.snoc (.property p hslot)
  | nothing _ _ _ _ => exact .refl s

theorem MembersDeclared.changes {q : Surroundings} {info info' : ClassInfo} {s t : Session}
    {ms : List Member} (h : MembersDeclared info s ms info' t) (hunit : s.unit = q.unit)
    {fields : List (String × String)} (hfields : info'.fields ⊆ fields) :
    Changes (fun change => ∃ m ∈ ms, MemberChange q info.name fields m change) s t := by
  induction h with
  | nil info s => exact .refl s
  | @cons info info' info'' s t u m rest hfirst hrest ih =>
    have hname : info'.name = info.name := hfirst.name_eq
    have hunit' : t.unit = q.unit := by
      have hone : MembersDeclared info s [m] info' t := .cons hfirst (.nil _ _)
      exact (Session.Untouched.members hone).unit.trans hunit
    have hhere := hfirst.changes hunit (List.Subset.trans hrest.fields_subset hfields)
    have hlater := ih hunit' hfields
    rw [hname] at hlater
    refine (hhere.mono fun change hchange => ⟨m, List.mem_cons_self, hchange⟩).trans ?_
    refine hlater.mono fun change hchange => ?_
    obtain ⟨m', hm', hchange⟩ := hchange
    exact ⟨m', List.mem_cons_of_mem _ hm', hchange⟩

/-- Declaring members keeps what is known about a class in line with its declaration. -/
theorem MembersDeclared.describes {info info' : ClassInfo} {s t : Session} {ms : List Member}
    {c : ClassDecl} (h : MembersDeclared info s ms info' t) (hms : ms ⊆ c.members)
    (hinfo : info.Describes c) : info'.Describes c := by
  induction h with
  | nil info s => exact hinfo
  | @cons info info' info'' s t u m rest hfirst _ ih =>
    refine ih (fun m' hm' => hms (List.mem_cons_of_mem _ hm')) ?_
    cases hfirst with
    | @constructor f k hbody _ =>
      refine ⟨hinfo.name, hinfo.minted, fun id hid => ?_⟩
      exact ⟨f, hms List.mem_cons_self, Option.some.inj hid, hbody⟩
    | property p =>
      refine ⟨hinfo.name, fun field hfield => ?_, hinfo.constructor⟩
      rcases List.mem_append.mp hfield with hfield | hfield
      · exact hinfo.minted field hfield
      · obtain rfl := List.mem_singleton.mp hfield
        exact ⟨_, _, rfl⟩
    | _ => exact hinfo

theorem ClassDeclared.changes {q : Surroundings} {s t : Session} {c : ClassDecl}
    (h : ClassDeclared s c t) (hunit : s.unit = q.unit) :
    t = s ∨ (c.isDeclared || c.isAbstract) = false ∧ ∃ info, info.Describes c ∧
      t.decls.class? c.id = some info ∧ Changes (ClassChange q c info) s t := by
  cases h with
  | known _ => exact .inl rfl
  | @fresh info u hown _ hmembers =>
    have hname : info.name = (s.named c.name).1 := hmembers.name_eq
    have hbare : ((s.named c.name).2.bareClass (s.named c.name).1).Describes c :=
      ⟨s.named_goesBy c.name, fun f hf => absurd hf List.not_mem_nil, fun id hid => nomatch hid⟩
    have hunit' := (Session.Untouched.named s c.name).unit.trans hunit
    have hsymbol : ClassChange q c info (.names ⟨(s.named c.name).1,
        (s.named c.name).2.qualify (s.named c.name).1, .classDef, some c.id⟩) := by
      rw [Surroundings.qualify_congr hunit', ← hname]
      exact .symbol
    have hparts := (hmembers.changes hunit' (List.Subset.refl _)).mono
      (Q := ClassChange q c info) fun change ⟨m, hm, hchange⟩ => .member hm (hname.symm ▸ hchange)
    refine .inr ⟨hown, info, hmembers.describes (List.Subset.refl _) hbare,
      Session.recorded_class _ _ _, ?_⟩
    exact (((Changes.named (.counts 1) s c.name).snoc hsymbol).trans hparts).snoc .record

/-! ## Units -/

/-- The changes that declaring the statements of a unit makes. -/
inductive UnitChange (q : Surroundings) (sts : List Stmt) : Change → Prop where
  | imports {line : Nat} {i : Import} {symbol : Symbol} (hst : .imports line i ∈ sts)
      (h : symbol ∈ importSymbols i) : UnitChange q sts (.names symbol)
  | function {f : FunctionDecl} {change : Change} (hst : .function f ∈ sts) (hbody : f.body ≠ none)
      (h : FunctionChange q f change) : UnitChange q sts change
  | classDef {c : ClassDecl} {info : ClassInfo} {change : Change} (hst : .classDef c ∈ sts)
      (hown : (c.isDeclared || c.isAbstract) = false) (hinfo : info.Describes c)
      (h : ClassChange q c info change) : UnitChange q sts change

/-- **Declaring a unit** makes the changes of its imports, functions and classes, and no others. -/
theorem UnitDeclared.changes {q : Surroundings} {s t : Session} {sts : List Stmt}
    (h : UnitDeclared s sts t) (hunit : s.unit = q.unit) : Changes (UnitChange q sts) s t := by
  induction h with
  | nil s => exact .refl s
  | @cons s t u st rest hfirst _ ih =>
    have hhere : Changes (UnitChange q (st :: rest)) s t := by
      cases hfirst with
      | imports line i => exact .registeredAll (fun symbol => .imports List.mem_cons_self) s
      | function hf =>
        rcases hf.changes hunit with rfl | ⟨hbody, hchanges⟩
        · exact .refl _
        · exact hchanges.mono fun change => .function List.mem_cons_self hbody
      | classDef hc =>
        rcases hc.changes hunit with rfl | ⟨hown, info, hinfo, -, hchanges⟩
        · exact .refl _
        · exact hchanges.mono fun change => .classDef List.mem_cons_self hown hinfo
      | nothing st => exact .refl s
    have hunit' : t.unit = q.unit := by
      have hone : UnitDeclared s [st] t := .cons hfirst (.nil _)
      exact (Session.Untouched.statements hone).unit.trans hunit
    refine hhere.trans ((ih hunit').mono fun change hchange => ?_)
    cases hchange with
    | imports hst h => exact .imports (List.mem_cons_of_mem _ hst) h
    | function hst hbody h => exact .function (List.mem_cons_of_mem _ hst) hbody h
    | classDef hst hown hinfo h => exact .classDef (List.mem_cons_of_mem _ hst) hown hinfo h

end FrameScript
