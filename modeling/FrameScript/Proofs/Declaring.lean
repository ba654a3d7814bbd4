/-
  What declaring does to a session.

  Declaring mints ids, registers symbols and records what is known about declarations; it stores no
  script, gives no warning and leaves the preamble alone.  The file states the outcome of each
  successful declaration in closed form:

  1. the slots of a callable are the ids minted next, from the names of its parameters and the name
     of its return slot (`callable_ok`);
  2. a function is left out, or gets a symbol and a record that agree (`FunctionDeclared`);
  3. the members of a class are declared one after the other (`MembersDeclared`), between the
     symbol of the class and its record (`ClassDeclared`);
  4. a unit is declared statement by statement (`UnitDeclared`).

  `Session.Untouched s t` says what all of them leave alone.
-/
import FrameScript.Proofs.Sessions

namespace FrameScript

open Source

/-! ## Ids in a row -/

namespace Allocator

/-- The ids minted from some stems when `n` have been minted before. -/
def idsAfter (n : Nat) : List String → List String
  | [] => []
  | stem :: rest => mintedId stem (n + 1) :: idsAfter (n + 1) rest

/-- The allocator after some ids were minted. -/
def counted (a : Allocator) (n : Nat) : Allocator := { a with ids := a.ids + n }

theorem mints_counted (a : Allocator) (stems : List String) :
    Mints a (idsAfter a.ids stems) (a.counted stems.length) := by
  induction stems generalizing a with
  | nil => exact .nothing a
  | cons stem rest ih =>
    have hrest := ih (a.freshId stem).2
    have hcount : (a.freshId stem).2.counted rest.length = a.counted (rest.length + 1) := by
      simp only [counted, freshId]
      congr 1
      omega
    rw [hcount] at hrest
    exact .id stem hrest

/-- Each of the ids is made from one of the stems. -/
theorem mem_idsAfter {n : Nat} {stems : List String} {x : String} (h : x ∈ idsAfter n stems) :
    ∃ stem ∈ stems, ∃ m, x = mintedId stem m := by
  induction stems generalizing n with
  | nil => exact absurd h List.not_mem_nil
  | cons stem rest ih =>
    rcases List.mem_cons.mp h with rfl | h
    · exact ⟨stem, List.mem_cons_self, n + 1, rfl⟩
    · obtain ⟨stem', hin, hx⟩ := ih h
      exact ⟨stem', List.mem_cons_of_mem stem hin, hx⟩

theorem idsAfter_append (n : Nat) (xs ys : List String) :
    idsAfter n (xs ++ ys) = idsAfter n xs ++ idsAfter (n + xs.length) ys := by
  induction xs generalizing n with
  | nil => rfl
  | cons x rest ih =>
    have hcount : n + 1 + rest.length = n + (rest.length + 1) := by omega
    simp only [List.cons_append, idsAfter, ih, List.length_cons, hcount]

end Allocator

namespace Session

theorem counted_counted (s : Session) (m n : Nat) :
    (s.counted m).counted n = s.counted (m + n) := by
  simp only [counted, Nat.add_assoc]

end Session

/-! ## Callables -/

/-- The name that a parameter binds. -/
def Source.Param.name? (p : Param) : Option String :=
  match p.binding with
  | .identifier name => some name
  | .pattern => none

/-- All slots of a callable: those of its parameters, then that of its result. -/
def Callable.slots (k : Callable) : List String := k.params.map (·.slot) ++ k.returnSlot.toList

/-- The stems of the slots of a function with the given script. -/
def Source.FunctionDecl.stems (f : FunctionDecl) (script : String) : List String :=
  f.params.map (fun p => p.name?.getD defaultStem) ++
    if (f.body.map bodyReturnsValue).getD false then [script ++ "_return"] else []

/-- The callable is what a session makes of a function with the given script: its parameters have
their names, and its slots are the ids minted next. -/
structure Callable.MadeOf (k : Callable) (s : Session) (script : String) (f : FunctionDecl) :
    Prop where
  script_eq : k.script = script
  path_eq : k.path = s.qualify script
  names_eq : k.params.map (·.name) = f.params.map Param.name?
  slots_eq : k.slots = Allocator.idsAfter s.allocator.ids (f.stems script)

namespace Declare

open SessionM

theorem params_ok {ps : List Param} {slots : List ParamSlot} {s t : Session}
    (h : (params ps).run s = (.ok slots, t)) :
    slots.map (·.name) = ps.map Param.name? ∧
      slots.map (·.slot) =
        Allocator.idsAfter s.allocator.ids (ps.map fun p => p.name?.getD defaultStem) ∧
      t = s.counted ps.length := by
  induction ps generalizing s t slots with
  | nil => cases h; exact ⟨rfl, rfl, rfl⟩
  | cons p rest ih =>
    rw [params] at h
    -- a rest parameter is refused
    cases hrest : p.rest with
    | true =>
      rw [hrest] at h
      obtain ⟨_, _, hfail, _⟩ := run_bind_ok h
      cases hfail
    | false =>
      rw [hrest] at h
      obtain ⟨slot, s₁, hfresh, h₁⟩ := run_bind_ok h
      rw [run_freshId] at hfresh
      obtain ⟨rfl, rfl⟩ := ok_inj hfresh
      obtain ⟨others, s₂, hothers, h₂⟩ := run_bind_ok h₁
      obtain ⟨hnames, hslots, rfl⟩ := ih hothers
      cases h₂
      refine ⟨?_, ?_, ?_⟩
      · rw [List.map_cons, List.map_cons, hnames]
        rfl
      · rw [List.map_cons, List.map_cons, Allocator.idsAfter, hslots]
        rfl
      · rw [Session.counted_counted, List.length_cons, Nat.add_comm]

/-- The callable of a function, and the ids it takes. -/
theorem callable_ok {script : String} {f : FunctionDecl} {k : Callable} {s t : Session}
    (h : (callable script f).run s = (.ok k, t)) :
    k.MadeOf s script f ∧ t = s.counted (f.stems script).length := by
  unfold callable at h
  obtain ⟨_, _, hget, h₁⟩ := run_bind_ok h
  cases hget
  obtain ⟨slots, s₁, hparams, h₂⟩ := run_bind_ok h₁
  obtain ⟨hnames, hslots, rfl⟩ := params_ok hparams
  have hlength : (f.params.map fun p => p.name?.getD defaultStem).length = f.params.length :=
    List.length_map _
  by_cases hvalue : (f.body.map bodyReturnsValue).getD false = true
  · simp only [if_pos hvalue, run_bind, run_map, run_freshId, run_pure] at h₂
    obtain ⟨rfl, rfl⟩ := ok_inj h₂
    refine ⟨⟨rfl, rfl, hnames, ?_⟩, ?_⟩
    · rw [FunctionDecl.stems, if_pos hvalue, Allocator.idsAfter_append, ← hslots, hlength]
      rfl
    · rw [FunctionDecl.stems, if_pos hvalue, List.length_append, hlength]
      exact Session.counted_counted s _ _
  · simp only [if_neg hvalue, run_bind, run_pure] at h₂
    obtain ⟨rfl, rfl⟩ := ok_inj h₂
    refine ⟨⟨rfl, rfl, hnames, ?_⟩, ?_⟩
    · rw [FunctionDecl.stems, if_neg hvalue, List.append_nil, ← hslots]
      exact List.append_nil _
    · rw [FunctionDecl.stems, if_neg hvalue, List.append_nil, hlength]

end Declare

/-! ## Functions -/

/-- The name of a declaration and the session after it was given: one without a name takes an id. -/
def Session.named (s : Session) : Option String → String × Session
  | some name => (name, s)
  | none => (s.nextId none, s.counted 1)

/-- What a declared callable leaves behind: its ids are counted and it is recorded. -/
def Session.withCallable (s : Session) (id : DeclId) (k : Callable) : Session :=
  (s.counted k.slots.length).recorded id (.callable k)

/-- The outcome of declaring a function: nothing, or a symbol and a record. -/
inductive FunctionDeclared (s : Session) (f : FunctionDecl) : Session → Prop where
  | known (h : f.body = none ∨ s.decls.contains f.id = true) : FunctionDeclared s f s
  | fresh (k : Callable) (hfresh : s.decls.contains f.id = false) (hbody : f.body ≠ none)
      (hk : k.MadeOf (s.named f.name).2 (s.named f.name).1 f) :
      FunctionDeclared s f (((s.named f.name).2.registered
        ⟨(s.named f.name).1, k.path, .function, some f.id⟩).withCallable f.id k)

namespace Declare

open SessionM

@[simp] theorem run_nameOf (s : Session) (name : Option String) :
    (nameOf name).run s = (.ok (s.named name).1, (s.named name).2) := by
  cases name <;> rfl

theorem length_slots {k : Callable} {s : Session} {script : String} {f : FunctionDecl}
    (h : k.MadeOf s script f) : k.slots.length = (f.stems script).length := by
  have hlength : ∀ n (stems : List String), (Allocator.idsAfter n stems).length = stems.length := by
    intro n stems
    induction stems generalizing n with
    | nil => rfl
    | cons stem rest ih => rw [Allocator.idsAfter, List.length_cons, List.length_cons, ih]
  rw [h.slots_eq, hlength]

theorem function_ok {f : FunctionDecl} {s t : Session} (h : (function f).run s = (.ok (), t)) :
    FunctionDeclared s f t := by
  unfold function at h
  obtain ⟨_, _, hget, h₁⟩ := run_bind_ok h
  cases hget
  by_cases hskip : (f.body.isNone || s.decls.contains f.id) = true
  · rw [if_pos hskip] at h₁
    cases h₁
    refine .known ?_
    rcases (Bool.or_eq_true _ _).mp hskip with hbody | hknown
    · exact .inl (Option.isNone_iff_eq_none.mp hbody)
    · exact .inr hknown
  · rw [if_neg hskip] at h₁
    obtain ⟨name, s₁, hname, h₂⟩ := run_bind_ok h₁
    rw [run_nameOf] at hname
    cases hname
    obtain ⟨k, s₂, hk, h₃⟩ := run_bind_ok h₂
    obtain ⟨hmade, rfl⟩ := callable_ok hk
    obtain ⟨_, _, hreg, h₄⟩ := run_bind_ok h₃
    cases hreg
    cases h₄
    rw [← length_slots hmade]
    have hno := Bool.or_eq_false_iff.mp (Bool.eq_false_iff.mpr hskip)
    refine .fresh k hno.2 ?_ hmade
    intro hnone
    rw [hnone] at hno
    exact absurd hno.1 (by decide)

end Declare

/-! ## Classes -/

/-- The kind of the symbol of a method. -/
def methodKind (isStatic : Bool) : SymbolKind := if isStatic then .staticMethod else .method

/-- The outcome of declaring one member of a class. -/
inductive MemberDeclared (info : ClassInfo) (s : Session) : Member → ClassInfo → Session → Prop where
  | method {f : FunctionDecl} (isStatic : Bool) {name : String} (k : Callable)
      (hname : f.name = some name) (hbody : f.body ≠ none)
      (hk : k.MadeOf s (methodScript info.name name) f) :
      MemberDeclared info s (.method f isStatic) info
        ((s.registered ⟨memberKey info.name name, k.path, methodKind isStatic, some f.id⟩).withCallable
          f.id k)
  | constructor {f : FunctionDecl} (k : Callable) (hbody : f.body ≠ none)
      (hk : k.MadeOf s (initScript info.name) f) :
      MemberDeclared info s (.constructor f) { info with constructor := some f.id }
        (s.withCallable f.id k)
  | property (p : Property) :
      MemberDeclared info s (.property p)
        { info with
          fields := info.fields ++ [(p.name, s.nextId (some (methodScript info.name p.name)))] }
        ((s.counted 1).registered ⟨memberKey info.name p.name,
          s.nextId (some (methodScript info.name p.name)), .field, none⟩)
  | nothing (m : Member)
      (hmethod : ∀ f isStatic, m = .method f isStatic → f.name = none ∨ f.body = none)
      (hconstructor : ∀ f, m = .constructor f → f.body = none)
      (hproperty : ∀ p, m ≠ .property p) : MemberDeclared info s m info s

/-- The outcome of declaring members one after the other. -/
inductive MembersDeclared : ClassInfo → Session → List Member → ClassInfo → Session → Prop where
  | nil (info : ClassInfo) (s : Session) : MembersDeclared info s [] info s
  | cons {info info' info'' : ClassInfo} {s t u : Session} {m : Member} {rest : List Member}
      (hfirst : MemberDeclared info s m info' t) (hrest : MembersDeclared info' t rest info'' u) :
      MembersDeclared info s (m :: rest) info'' u

/-- What is known about a class before its members are declared. -/
def Session.bareClass (s : Session) (name : String) : ClassInfo :=
  { name, path := s.qualify name, constructor := none, fields := [] }

/-- The outcome of declaring a class: nothing, or a symbol, the members and a record. -/
inductive ClassDeclared (s : Session) (c : ClassDecl) : Session → Prop where
  | known (h : c.isDeclared = true ∨ c.isAbstract = true ∨ s.decls.contains c.id = true) :
      ClassDeclared s c s
  | fresh {info : ClassInfo} {t : Session} (hown : (c.isDeclared || c.isAbstract) = false)
      (hfresh : s.decls.contains c.id = false)
      (hmembers : MembersDeclared ((s.named c.name).2.bareClass (s.named c.name).1)
        ((s.named c.name).2.registered ⟨(s.named c.name).1,
          (s.named c.name).2.qualify (s.named c.name).1, .classDef, some c.id⟩) c.members info t) :
      ClassDeclared s c (t.recorded c.id (.classInfo info))

namespace Declare

open SessionM

theorem member_ok {info info' : ClassInfo} {m : Member} {s t : Session}
    (h : (member info m).run s = (.ok info', t)) : MemberDeclared info s m info' t := by
  cases m with
  | method f isStatic =>
    unfold member at h
    dsimp only at h
    split at h
    · next name body hname hbody =>
      obtain ⟨k, s₁, hk, h₁⟩ := run_bind_ok h
      obtain ⟨hmade, rfl⟩ := callable_ok hk
      simp only [run_bind, run_register, run_record, run_pure] at h₁
      obtain ⟨rfl, rfl⟩ := ok_inj h₁
      rw [← length_slots hmade]
      exact .method isStatic k hname (by rw [hbody]; exact Option.some_ne_none _) hmade
    · next hno =>
      obtain ⟨rfl, rfl⟩ := ok_inj h
      refine .nothing _ ?_ (fun f' hf' => nomatch hf') (fun p hp => nomatch hp)
      intro f' isStatic' hf'
      cases hf'
      cases hname : f.name with
      | none => exact .inl rfl
      | some name =>
        cases hbody : f.body with
        | none => exact .inr rfl
        | some body => exact absurd hbody (hno name body hname)
  | constructor f =>
    unfold member at h
    dsimp only at h
    split at h
    · next body hbody =>
      obtain ⟨k, s₁, hk, h₁⟩ := run_bind_ok h
      obtain ⟨hmade, rfl⟩ := callable_ok hk
      simp only [run_bind, run_record, run_pure] at h₁
      obtain ⟨rfl, rfl⟩ := ok_inj h₁
      rw [← length_slots hmade]
      exact .constructor k (by rw [hbody]; exact Option.some_ne_none _) hmade
    · next hbody =>
      obtain ⟨rfl, rfl⟩ := ok_inj h
      refine .nothing _ (fun f' b hf' => nomatch hf') ?_ (fun p hp => nomatch hp)
      intro f' hf'
      cases hf'
      exact hbody
  | property p =>
    unfold member at h
    simp only [run_bind, run_freshId, run_register, run_pure] at h
    obtain ⟨rfl, rfl⟩ := ok_inj h
    exact .property p
  | other line kind =>
    unfold member at h
    obtain ⟨rfl, rfl⟩ := ok_inj h
    exact .nothing _ (fun f' b hf' => nomatch hf') (fun f' hf' => nomatch hf') (fun p hp => nomatch hp)

theorem members_ok {members : List Member} {info info' : ClassInfo} {s t : Session}
    (h : (members.foldlM member info).run s = (.ok info', t)) :
    MembersDeclared info s members info' t := by
  induction members generalizing info s with
  | nil =>
    obtain ⟨rfl, rfl⟩ := ok_inj h
    exact .nil info s
  | cons m rest ih =>
    rw [List.foldlM_cons] at h
    obtain ⟨mid, s₁, hfirst, hrest⟩ := run_bind_ok h
    exact .cons (member_ok hfirst) (ih hrest)

theorem class_ok {c : ClassDecl} {s t : Session} (h : (classDef c).run s = (.ok (), t)) :
    ClassDeclared s c t := by
  unfold classDef at h
  obtain ⟨_, _, hget, h₁⟩ := run_bind_ok h
  cases hget
  by_cases hskip : (c.isDeclared || c.isAbstract || s.decls.contains c.id) = true
  · rw [if_pos hskip] at h₁
    obtain ⟨-, rfl⟩ := ok_inj h₁
    refine .known ?_
    rcases (Bool.or_eq_true _ _).mp hskip with hkind | hknown
    · rcases (Bool.or_eq_true _ _).mp hkind with hdeclared | habstract
      · exact .inl hdeclared
      · exact .inr (.inl habstract)
    · exact .inr (.inr hknown)
  · rw [if_neg hskip] at h₁
    have hno := Bool.or_eq_false_iff.mp (Bool.eq_false_iff.mpr hskip)
    obtain ⟨name, s₁, hname, h₂⟩ := run_bind_ok h₁
    rw [run_nameOf] at hname
    obtain ⟨rfl, rfl⟩ := ok_inj hname
    obtain ⟨_, _, hget', h₃⟩ := run_bind_ok h₂
    cases hget'
    obtain ⟨_, s₂, hregister, h₄⟩ := run_bind_ok h₃
    rw [run_register] at hregister
    obtain ⟨-, rfl⟩ := ok_inj hregister
    obtain ⟨info, s₃, hmembers, h₅⟩ := run_bind_ok h₄
    rw [run_record] at h₅
    obtain ⟨-, rfl⟩ := ok_inj h₅
    exact .fresh hno.1 hno.2 (members_ok hmembers)

end Declare

/-! ## Units -/

/-- The symbols that an import brings in, in order. -/
def importSymbols (i : Import) : List Symbol :=
  (i.default.map fun name => ⟨name, qualify (moduleContext i.module) name, .imported, none⟩).toList ++
  (i.namespaceName.map fun name => ⟨name, moduleContext i.module, .namespaceName, none⟩).toList ++
  i.named.map fun n => ⟨n.bound, qualify (moduleContext i.module) n.name, .imported, none⟩

/-- The session after some symbols were registered, in order. -/
def Session.registeredAll (s : Session) (symbols : List Symbol) : Session :=
  symbols.foldl Session.registered s

theorem Session.registeredAll_decls (s : Session) (symbols : List Symbol) :
    (s.registeredAll symbols).decls = s.decls ∧ (s.registeredAll symbols).allocator = s.allocator := by
  induction symbols generalizing s with
  | nil => exact ⟨rfl, rfl⟩
  | cons symbol rest ih => exact ih (s.registered symbol)

/-- The outcome of declaring one statement of a unit. -/
inductive StmtDeclared (s : Session) : Stmt → Session → Prop where
  | imports (line : Nat) (i : Import) :
      StmtDeclared s (.imports line i) (s.registeredAll (importSymbols i))
  | function {f : FunctionDecl} {t : Session} (h : FunctionDeclared s f t) :
      StmtDeclared s (.function f) t
  | classDef {c : ClassDecl} {t : Session} (h : ClassDeclared s c t) :
      StmtDeclared s (.classDef c) t
  | nothing (st : Stmt) : StmtDeclared s st s

/-- The outcome of declaring the statements of a unit. -/
inductive UnitDeclared : Session → List Stmt → Session → Prop where
  | nil (s : Session) : UnitDeclared s [] s
  | cons {s t u : Session} {st : Stmt} {rest : List Stmt} (hfirst : StmtDeclared s st t)
      (hrest : UnitDeclared t rest u) : UnitDeclared s (st :: rest) u

namespace Declare

open SessionM

theorem run_registerAll {α : Type} (symbol : α → Symbol) (xs : List α) (s : Session) :
    (xs.forM fun x => register (symbol x)).run s = (.ok (), s.registeredAll (xs.map symbol)) := by
  induction xs generalizing s with
  | nil => rfl
  | cons x rest ih =>
    show (register (symbol x) >>= fun _ => rest.forM fun y => register (symbol y)).run s = _
    rw [run_bind, run_register]
    exact ih _

theorem run_imports (i : Import) (s : Session) :
    (imports i).run s = (.ok (), s.registeredAll (importSymbols i)) := by
  unfold imports importSymbols
  cases i.default <;> cases i.namespaceName <;>
    simp only [run_bind, run_register, run_registerAll] <;> rfl

theorem stmt_ok {st : Stmt} {s t : Session} (h : (stmt st).run s = (.ok (), t)) :
    StmtDeclared s st t := by
  cases st with
  | imports line i =>
    rw [stmt, run_imports] at h
    obtain ⟨-, rfl⟩ := ok_inj h
    exact .imports line i
  | function f => exact .function (function_ok h)
  | classDef c => exact .classDef (class_ok h)
  | _ =>
    obtain ⟨-, rfl⟩ := ok_inj h
    exact .nothing _

theorem unit_ok {statements : List Stmt} {s t : Session}
    (h : (unit statements).run s = (.ok (), t)) : UnitDeclared s statements t := by
  induction statements generalizing s with
  | nil =>
    obtain ⟨-, rfl⟩ := ok_inj h
    exact .nil s
  | cons st rest ih =>
    have hsplit : unit (st :: rest) = stmt st >>= fun _ => unit rest := rfl
    rw [hsplit] at h
    obtain ⟨_, s₁, hfirst, hrest⟩ := run_bind_ok h
    exact .cons (stmt_ok hfirst) (ih hrest)

end Declare

/-! ## What declaring leaves alone -/

/-- Nothing differs but the ids minted, the symbols and the records. -/
structure Session.Untouched (s t : Session) : Prop where
  unit : t.unit = s.unit
  scope : t.scope = s.scope
  scripts : t.scripts = s.scripts
  warnings : t.warnings = s.warnings
  preamble : t.allocator.preamble = s.allocator.preamble
  registers : t.allocator.registers = s.allocator.registers

namespace Session.Untouched

variable {s t u : Session}

theorem refl (s : Session) : Untouched s s := ⟨rfl, rfl, rfl, rfl, rfl, rfl⟩

theorem trans (h : Untouched s t) (h' : Untouched t u) : Untouched s u where
  unit := h'.unit.trans h.unit
  scope := h'.scope.trans h.scope
  scripts := h'.scripts.trans h.scripts
  warnings := h'.warnings.trans h.warnings
  preamble := h'.preamble.trans h.preamble
  registers := h'.registers.trans h.registers

theorem named (s : Session) (name : Option String) : Untouched s (s.named name).2 := by
  cases name <;> exact ⟨rfl, rfl, rfl, rfl, rfl, rfl⟩

theorem registered (h : Untouched s t) (symbol : Symbol) : Untouched s (t.registered symbol) :=
  h.trans ⟨rfl, rfl, rfl, rfl, rfl, rfl⟩

theorem recorded (h : Untouched s t) (id : DeclId) (d : Declaration) :
    Untouched s (t.recorded id d) := h.trans ⟨rfl, rfl, rfl, rfl, rfl, rfl⟩

theorem withCallable (h : Untouched s t) (id : DeclId) (k : Callable) :
    Untouched s (t.withCallable id k) := h.trans ⟨rfl, rfl, rfl, rfl, rfl, rfl⟩

theorem registeredAll (s : Session) (symbols : List Symbol) :
    Untouched s (s.registeredAll symbols) := by
  induction symbols generalizing s with
  | nil => exact refl s
  | cons symbol rest ih => exact ((refl s).registered symbol).trans (ih (s.registered symbol))

theorem function {f : FunctionDecl} (h : FunctionDeclared s f t) : Untouched s t := by
  cases h with
  | known _ => exact refl s
  | fresh k _ _ _ => exact ((named s f.name).registered _).withCallable _ _

theorem members {info info' : ClassInfo} {ms : List Member} (h : MembersDeclared info s ms info' t) :
    Untouched s t := by
  induction h with
  | nil info s => exact refl s
  | cons hfirst _ ih =>
    refine trans ?_ ih
    cases hfirst with
    | method _ k _ _ _ => exact ((refl _).registered _).withCallable _ _
    | constructor k _ _ => exact (refl _).withCallable _ _
    | property p => exact ⟨rfl, rfl, rfl, rfl, rfl, rfl⟩
    | nothing _ _ _ _ => exact refl _

theorem classDef {c : ClassDecl} (h : ClassDeclared s c t) : Untouched s t := by
  cases h with
  | known _ => exact refl s
  | fresh _ _ hmembers => exact (((named s c.name).registered _).trans (members hmembers)).recorded _ _

theorem statements {sts : List Stmt} (h : UnitDeclared s sts t) : Untouched s t := by
  induction h with
  | nil s => exact refl s
  | cons hfirst _ ih =>
    refine trans ?_ ih
    cases hfirst with
    | imports line i => exact registeredAll _ _
    | function h => exact function h
    | classDef h => exact classDef h
    | nothing _ => exact refl _

end Session.Untouched

end FrameScript
