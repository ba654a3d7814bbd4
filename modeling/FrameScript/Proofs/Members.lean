/-
  The members that a class offers.

  The members of all classes share one flat table of names: a member is registered under the name of
  its class and its own, put together.  So whether `this.p` finds the member of the right class is a
  question about who registers which name, and the file answers it for declarations:

  1. `SymbolTable.meanings` lists what a name means in each open scope.  Registering another name
     changes none of it, and opening a scope only adds to it, so it can be followed through scripts.
  2. `Source.Member.symbol?` is the meaning that a member should have, and a table `Offers` a class if all
     its members have theirs.
  3. Declaring a class whose members have distinct names makes the table offer it
     (`ClassDeclared.offers`), and declaring anything else leaves the meaning of a name alone unless
     it is the name that is declared (`FunctionDeclared.meanings_eq`, `ClassDeclared.meanings_eq`).
-/
import FrameScript.Proofs.Growth
import FrameScript.Proofs.Spelling

namespace FrameScript

open Source

/-! ## What a name means, scope by scope -/

namespace SymbolTable

/-- The meanings of a name in the open scopes, from the inside out. -/
def meanings (t : SymbolTable) (x : String) : List (Option Symbol) :=
  (t.inner ++ [t.unitScope]).map (·[x]?)

variable {t u : SymbolTable} {x : String}

theorem lookup_eq_meanings (t : SymbolTable) (x : String) : t.lookup x = (t.meanings x).findSome? id := by
  rw [lookup, meanings, List.findSome?_map]
  rfl

theorem lookup_congr (h : u.meanings x = t.meanings x) : u.lookup x = t.lookup x := by
  rw [lookup_eq_meanings, lookup_eq_meanings, h]

theorem meanings_register {symbol : Symbol} (h : symbol.name ≠ x) :
    (t.register symbol).meanings x = t.meanings x := by
  have hinsert : ∀ scope : Scope, (scope.insert symbol.name symbol)[x]? = scope[x]? := by
    intro scope
    simp [Std.TreeMap.getElem?_insert, h]
  unfold register meanings
  split <;> simp_all

/-- A new scope gives the name no meaning. -/
theorem meanings_enter (t : SymbolTable) (x : String) : t.enter.meanings x = none :: t.meanings x := by
  simp [meanings, enter]

theorem lookup_enter (t : SymbolTable) (x : String) : t.enter.lookup x = t.lookup x := by
  rw [lookup_eq_meanings, meanings_enter, lookup_eq_meanings]
  rfl

/-- A scope that was opened and did not touch the name is closed again. -/
theorem meanings_exit (h : u.meanings x = t.enter.meanings x) : u.exit.meanings x = t.meanings x := by
  rw [meanings_enter] at h
  rcases u with ⟨unitScope, _ | ⟨top, rest⟩⟩
  · -- the table cannot have fewer scopes than were opened
    have hlength := congrArg List.length h
    simp [meanings] at hlength
  · exact (List.cons.inj h).2

end SymbolTable

/-! ## Members -/

/-- The name by which a class offers a member: properties and methods with a body have one. -/
def Source.Member.offered? : Member → Option String
  | .method f _ => if f.body.isSome then f.name else none
  | .property p => some p.name
  | .constructor _ | .other .. => none

/-- The names of the members that a class offers. -/
def Source.ClassDecl.offered (c : ClassDecl) : List String := c.members.filterMap Member.offered?

/-- The meaning of a member of the class. -/
def Source.Member.symbol? (context : String) (info : ClassInfo) : Member → Option Symbol
  | .method f isStatic =>
    if f.body.isSome then f.name.map fun name =>
      ⟨memberKey info.name name, qualify context (methodScript info.name name), methodKind isStatic,
        some f.id⟩
    else none
  | .property p => (info.fieldSlot? p.name).map fun slot =>
      ⟨memberKey info.name p.name, slot, .field, none⟩
  | .constructor _ | .other .. => none

/-- Every property has the slot that was minted for it, and every member has its meaning. -/
structure SymbolTable.Offers (t : SymbolTable) (context : String) (info : ClassInfo)
    (ms : List Member) : Prop where
  slots : ∀ p, .property p ∈ ms →
    ∃ n, info.fieldSlot? p.name = some (mintedId (methodScript info.name p.name) n)
  meanings : ∀ m ∈ ms, ∀ symbol, m.symbol? context info = some symbol →
    t.lookup symbol.name = some symbol

theorem memberKey_inj {owner a b : String} (h : memberKey owner a = memberKey owner b) : a = b := by
  have hlist := congrArg String.toList h
  rw [memberKey, memberKey, String.toList_append, String.toList_append] at hlist
  exact String.toList_inj.mp (List.append_cancel_left hlist)

theorem Source.Member.symbol_name {context : String} {info : ClassInfo} {m : Member} {symbol : Symbol}
    (h : m.symbol? context info = some symbol) :
    ∃ name, m.offered? = some name ∧ symbol.name = memberKey info.name name := by
  cases m with
  | method f isStatic =>
    rw [Member.symbol?] at h
    split at h
    · next hbody =>
      obtain ⟨name, hname, rfl⟩ := Option.map_eq_some_iff.mp h
      exact ⟨name, by rw [Member.offered?, if_pos hbody, hname], rfl⟩
    · cases h
  | property p =>
    obtain ⟨slot, -, rfl⟩ := Option.map_eq_some_iff.mp h
    exact ⟨p.name, rfl, rfl⟩
  | constructor f => cases h
  | other line kind => cases h

namespace SymbolTable.Offers

variable {t u : SymbolTable} {context : String} {info : ClassInfo} {ms : List Member}

/-- What a table offers depends on the members' names alone. -/
theorem congr (h : t.Offers context info ms)
    (hsame : ∀ name ∈ ms.filterMap Member.offered?,
      u.lookup (memberKey info.name name) = t.lookup (memberKey info.name name)) :
    u.Offers context info ms where
  slots := h.slots
  meanings := fun m hm symbol hsymbol => by
    obtain ⟨name, hname, heq⟩ := Member.symbol_name hsymbol
    rw [← h.meanings m hm symbol hsymbol, heq]
    exact hsame name (List.mem_filterMap.mpr ⟨m, hm, hname⟩)

theorem nil (t : SymbolTable) (context : String) (info : ClassInfo) : t.Offers context info [] where
  slots := fun _ hp => absurd hp List.not_mem_nil
  meanings := fun _ hm => absurd hm List.not_mem_nil

end SymbolTable.Offers

/-! ## Fields -/

namespace ClassInfo

variable {info : ClassInfo} {name slot : String}

theorem fieldSlot_append_old (h : info.fieldSlot? name = some slot) (more : List (String × String)) :
    { info with fields := info.fields ++ more }.fieldSlot? name = some slot := by
  unfold fieldSlot? at h ⊢
  obtain ⟨field, hfound, rfl⟩ := Option.map_eq_some_iff.mp h
  rw [List.find?_append, hfound]
  rfl

theorem fieldSlot_append_new (h : info.fieldSlot? name = none) (slot : String) :
    { info with fields := info.fields ++ [(name, slot)] }.fieldSlot? name = some slot := by
  unfold fieldSlot? at h ⊢
  rw [List.find?_append, Option.map_eq_none_iff.mp h]
  simp

theorem fieldSlot_append_other (h : info.fieldSlot? name = none) {other : String} (hne : other ≠ name)
    (slot : String) :
    { info with fields := info.fields ++ [(other, slot)] }.fieldSlot? name = none := by
  unfold fieldSlot? at h ⊢
  rw [List.find?_append, Option.map_eq_none_iff.mp h]
  simp [hne]

end ClassInfo

/-! ## Declaring a class -/

section Declaring

variable {info info' : ClassInfo} {s t : Session} {m : Member} {ms : List Member} {x : String}

/-- The first of two members with a name apart from the other names. -/
theorem offered_cons {rest : List Member} (h : ((m :: rest).filterMap Member.offered?).Nodup) :
    (rest.filterMap Member.offered?).Nodup ∧
      ∀ name, m.offered? = some name → name ∉ rest.filterMap Member.offered? := by
  cases hname : m.offered? with
  | none =>
    rw [List.filterMap_cons_none hname] at h
    exact ⟨h, fun name habs => nomatch habs⟩
  | some name =>
    rw [List.filterMap_cons_some hname, List.nodup_cons] at h
    refine ⟨h.2, fun name' heq => ?_⟩
    cases heq
    exact h.1

theorem MemberDeclared.meanings_eq (h : MemberDeclared info s m info' t)
    (hx : ∀ name, m.offered? = some name → memberKey info.name name ≠ x) :
    t.symbols.meanings x = s.symbols.meanings x := by
  cases h with
  | @method f isStatic name k hname hbody _ =>
    refine SymbolTable.meanings_register (hx name ?_)
    rw [Member.offered?, if_pos (Option.isSome_iff_ne_none.mpr hbody), hname]
  | constructor k _ _ => rfl
  | property p => exact SymbolTable.meanings_register (hx p.name rfl)
  | nothing _ _ _ _ => rfl

theorem MembersDeclared.meanings_eq (h : MembersDeclared info s ms info' t)
    (hx : ∀ name ∈ ms.filterMap Member.offered?, memberKey info.name name ≠ x) :
    t.symbols.meanings x = s.symbols.meanings x := by
  induction h with
  | nil info s => rfl
  | @cons info info' info'' s t u m rest hfirst _ ih =>
    rw [ih ?_, hfirst.meanings_eq fun name hname => ?_]
    · exact hx name (List.mem_filterMap.mpr ⟨m, List.mem_cons_self, hname⟩)
    · intro name hname
      obtain ⟨m', hm', hname⟩ := List.mem_filterMap.mp hname
      rw [hfirst.name_eq]
      exact hx name (List.mem_filterMap.mpr ⟨m', List.mem_cons_of_mem _ hm', hname⟩)

theorem MembersDeclared.fieldSlot_eq (h : MembersDeclared info s ms info' t) {name slot : String}
    (hslot : info.fieldSlot? name = some slot) : info'.fieldSlot? name = some slot := by
  induction h with
  | nil info s => exact hslot
  | @cons info _ _ _ _ _ _ _ hfirst _ ih =>
    refine ih ?_
    cases hfirst with
    | property p => exact info.fieldSlot_append_old hslot _
    | _ => exact hslot

/-- A property that is declared has its slot, and no other name gets one. -/
theorem MemberDeclared.fieldSlot_other (h : MemberDeclared info s m info' t) {name : String}
    (hnone : info.fieldSlot? name = none) (hne : m.offered? ≠ some name) :
    info'.fieldSlot? name = none := by
  cases h with
  | property p =>
    refine info.fieldSlot_append_other hnone (fun heq => hne ?_) _
    rw [Member.offered?, heq]
  | _ => exact hnone

/-- What one member contributes is there when it is declared. -/
theorem MemberDeclared.offers {context : String} (h : MemberDeclared info s m info' t)
    (hframe : s.frame = some context) (hfields : ∀ p, m = .property p → info.fieldSlot? p.name = none) :
    t.symbols.Offers context info' [m] := by
  cases h with
  | @method f isStatic name k hname hbody hk =>
    refine ⟨fun p hp => (nomatch List.mem_singleton.mp hp), fun m' hm' symbol hsymbol => ?_⟩
    obtain rfl := List.mem_singleton.mp hm'
    rw [Member.symbol?, if_pos (Option.isSome_iff_ne_none.mpr hbody), hname] at hsymbol
    obtain rfl := Option.some.inj hsymbol
    have hpath : k.path = qualify context (methodScript info.name name) := by
      rw [hk.path_eq, Surroundings.qualify_of_frame hframe]
    dsimp only
    rw [← hpath]
    exact SymbolTable.lookup_register_self _
      ⟨memberKey info.name name, k.path, methodKind isStatic, some f.id⟩
  | constructor k _ _ =>
    refine ⟨fun p hp => (nomatch List.mem_singleton.mp hp), fun m' hm' symbol hsymbol => ?_⟩
    obtain rfl := List.mem_singleton.mp hm'
    cases hsymbol
  | property p =>
    have hslot := info.fieldSlot_append_new (hfields p rfl) (s.nextId (some (methodScript info.name p.name)))
    refine ⟨fun p' hp' => ?_, fun m' hm' symbol hsymbol => ?_⟩
    · cases List.mem_singleton.mp hp'
      exact ⟨_, hslot⟩
    · obtain rfl := List.mem_singleton.mp hm'
      rw [Member.symbol?, hslot] at hsymbol
      obtain rfl := Option.some.inj hsymbol
      exact SymbolTable.lookup_register_self _ ⟨memberKey info.name p.name, _, .field, none⟩
  | nothing _ hmethod hconstructor hproperty =>
    refine ⟨fun p hp => (hproperty p (List.mem_singleton.mp hp).symm).elim,
      fun m' hm' symbol hsymbol => ?_⟩
    obtain rfl := List.mem_singleton.mp hm'
    -- such a member offers nothing
    obtain ⟨name, hname, -⟩ := Member.symbol_name hsymbol
    cases m' with
    | method f isStatic =>
      rcases hmethod f isStatic rfl with hnone | hnone
      · rw [Member.offered?, hnone] at hname
        split at hname <;> cases hname
      · rw [Member.offered?, hnone] at hname
        cases hname
    | constructor f => cases hname
    | property p => exact (hproperty p rfl).elim
    | other line kind => cases hname

/-- The meaning of a member is the same for everything that is known about the class later. -/
theorem Source.Member.symbol_eq {context : String} {symbol : Symbol}
    (hname : info'.name = info.name)
    (hslots : ∀ p, m = .property p → ∃ slot, info.fieldSlot? p.name = some slot ∧
      info'.fieldSlot? p.name = some slot) (h : m.symbol? context info' = some symbol) :
    m.symbol? context info = some symbol := by
  cases m with
  | property p =>
    obtain ⟨slot, hold, hnew⟩ := hslots p rfl
    rw [Member.symbol?, hnew, hname] at h
    rw [Member.symbol?, hold]
    exact h
  | method f isStatic =>
    rw [Member.symbol?, hname] at h
    exact h
  | constructor f => cases h
  | other line kind => cases h

/-- **Members with distinct names are all offered.**  Each is registered once, and no later one takes
its name. -/
theorem MembersDeclared.offers {context : String} (h : MembersDeclared info s ms info' t)
    (hframe : s.frame = some context) (hnodup : (ms.filterMap Member.offered?).Nodup)
    (hfields : ∀ p, .property p ∈ ms → info.fieldSlot? p.name = none) :
    t.symbols.Offers context info' ms := by
  induction h with
  | nil info s => exact .nil _ _ _
  | @cons info info' info'' s t u m rest hfirst hrest ih =>
    obtain ⟨hnodup', hapart⟩ := offered_cons hnodup
    have hone : MembersDeclared info s [m] info' t := .cons hfirst (.nil _ _)
    have hframe' : t.frame = some context :=
      (Surroundings.frame_congr (Session.Untouched.members hone).unit).trans hframe
    have hlater := ih hframe' hnodup' fun p hp => by
      refine hfirst.fieldSlot_other (hfields p (List.mem_cons_of_mem _ hp)) fun hname => ?_
      exact hapart p.name hname (List.mem_filterMap.mpr ⟨_, hp, rfl⟩)
    have hhere := hfirst.offers hframe fun p hp => hfields p (hp ▸ List.mem_cons_self)
    refine ⟨fun p hp => ?_, fun m' hm' symbol hsymbol => ?_⟩
    · rcases List.mem_cons.mp hp with rfl | hp
      · obtain ⟨n, hslot⟩ := hhere.slots p List.mem_cons_self
        refine ⟨n, hrest.fieldSlot_eq ?_⟩
        rw [hrest.name_eq]
        exact hslot
      · exact hlater.slots p hp
    · rcases List.mem_cons.mp hm' with rfl | hm'
      · have hsymbol' : m'.symbol? context info' = some symbol := by
          refine Member.symbol_eq hrest.name_eq (fun p hp => ?_) hsymbol
          obtain ⟨n, hslot⟩ := hhere.slots p (hp ▸ List.mem_cons_self)
          exact ⟨_, hslot, hrest.fieldSlot_eq hslot⟩
        rw [← hhere.meanings m' List.mem_cons_self symbol hsymbol']
        obtain ⟨name, hname, heq⟩ := Member.symbol_name hsymbol'
        refine SymbolTable.lookup_congr (hrest.meanings_eq fun name' hname' hsame => ?_)
        rw [heq] at hsame
        exact hapart name hname (memberKey_inj hsame ▸ hname')
      · exact hlater.meanings m' hm' symbol hsymbol

/-- The class has the name that it is written with, and its members are offered. -/
structure SymbolTable.OffersClass (t : SymbolTable) (context : String) (info : ClassInfo)
    (c : ClassDecl) : Prop where
  name_eq : ∀ name, c.name = some name → info.name = name
  members : t.Offers context info c.members

theorem SymbolTable.OffersClass.congr {table u : SymbolTable} {context : String} {c : ClassDecl}
    (h : table.OffersClass context info c)
    (hsame : ∀ name ∈ c.offered,
      u.lookup (memberKey info.name name) = table.lookup (memberKey info.name name)) :
    u.OffersClass context info c :=
  ⟨h.name_eq, h.members.congr hsame⟩

/-- **A class that is declared is offered**, now or since it was declared before. -/
theorem ClassDeclared.offers {context : String} {c : ClassDecl} (h : ClassDeclared s c t)
    (hframe : s.frame = some context) (hnodup : c.offered.Nodup)
    (hknown : ∀ info, s.decls.class? c.id = some info → s.symbols.OffersClass context info c)
    (hinfo : t.decls.class? c.id = some info) : t.symbols.OffersClass context info c := by
  cases h with
  | known _ => exact hknown info hinfo
  | @fresh info' u _ _ hmembers =>
    rw [Session.recorded_class] at hinfo
    obtain rfl := Option.some.inj hinfo
    have hframe' : (s.named c.name).2.frame = some context :=
      (Surroundings.frame_congr (Session.Untouched.named s c.name).unit).trans hframe
    refine ⟨fun name hname => ?_, hmembers.offers hframe' hnodup fun p _ => rfl⟩
    have hsame : info'.name = (s.named c.name).1 := hmembers.name_eq
    rw [hsame, hname]
    rfl

/-! ## Names that a declaration leaves alone -/

theorem Session.named_symbols (s : Session) (name : Option String) :
    (s.named name).2.symbols = s.symbols := by
  cases name <;> rfl

theorem FunctionDeclared.meanings_eq {f : FunctionDecl} (h : FunctionDeclared s f t)
    (hx : ∀ k, t.decls.callable? f.id = some k → k.script ≠ x) :
    t.symbols.meanings x = s.symbols.meanings x := by
  cases h with
  | known _ => rfl
  | fresh k _ _ hk =>
    have hname : (s.named f.name).1 ≠ x := by
      rw [← hk.script_eq]
      exact hx k (Session.recorded_callable _ _ _)
    exact (SymbolTable.meanings_register hname).trans (by rw [s.named_symbols])

theorem ClassDeclared.meanings_eq {c : ClassDecl} (h : ClassDeclared s c t)
    (hname : ∀ info, t.decls.class? c.id = some info → info.name ≠ x)
    (hmember : s.decls.class? c.id = none → ∀ info, t.decls.class? c.id = some info →
      ∀ name ∈ c.offered, memberKey info.name name ≠ x) :
    t.symbols.meanings x = s.symbols.meanings x := by
  cases h with
  | known _ => rfl
  | @fresh info u _ hfresh hmembers =>
    have hinfo : (u.recorded c.id (.classInfo info)).decls.class? c.id = some info :=
      Session.recorded_class _ _ _
    have hnone : s.decls.class? c.id = none := by
      rw [Std.TreeMap.contains_eq_isSome_getElem?] at hfresh
      exact DeclTable.class?_none (Option.isNone_iff_eq_none.mp (Option.isSome_eq_false_iff.mp hfresh))
    have hsame : info.name = (s.named c.name).1 := hmembers.name_eq
    calc (u.recorded c.id (.classInfo info)).symbols.meanings x
        = _ := hmembers.meanings_eq fun name hin => hsame ▸ hmember hnone info hinfo name hin
      _ = (s.named c.name).2.symbols.meanings x :=
        SymbolTable.meanings_register (hsame ▸ hname info hinfo)
      _ = s.symbols.meanings x := by rw [s.named_symbols]

theorem Session.registeredAll_meanings (s : Session) {symbols : List Symbol}
    (hx : ∀ symbol ∈ symbols, symbol.name ≠ x) :
    (s.registeredAll symbols).symbols.meanings x = s.symbols.meanings x := by
  induction symbols generalizing s with
  | nil => rfl
  | cons symbol rest ih =>
    have hrest := ih (s.registered symbol) fun other hother => hx other (List.mem_cons_of_mem _ hother)
    exact hrest.trans (SymbolTable.meanings_register (hx symbol List.mem_cons_self))

end Declaring

end FrameScript
