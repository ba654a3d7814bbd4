/-
  What is assigned.

  The left side of an assignment or an update is an identifier or a member.  Either is looked up, and
  the path of the symbol that is found is the slot, whatever kind of symbol it is.  A symbol table
  holds these kinds of things (`Origin`): slots of variables and fields, which are minted; what imports
  bind; and the functions, classes and methods of the unit, whose paths lie in its own context.  A
  target is therefore a parameter, a variable, a field, something imported, a name without a meaning, or
  a path of the unit (`Surroundings.Target`, `Surroundings.Stocked.target`).
-/
import FrameScript.Proofs.Targets

namespace FrameScript

open Source

/-! ## Where symbols come from -/

/-- The symbol is that of a function, class or method of the unit. -/
def SymbolKind.isOwn : SymbolKind → Bool
  | .function | .classDef | .method | .staticMethod => true
  | .variableName | .field | .imported | .namespaceName => false

/-- What a symbol of a unit may be. -/
inductive Origin (u : CompilationUnit) : Symbol → Prop where
  | slot (name stem : String) (n : Nat) {kind : SymbolKind}
      (hkind : kind = .variableName ∨ kind = .field) : Origin u ⟨name, mintedId stem n, kind, none⟩
  | imported {line : Nat} {i : Import} {symbol : Symbol} (hst : .imports line i ∈ u.statements)
      (h : symbol ∈ importSymbols i) : Origin u symbol
  | own (name script : String) {kind : SymbolKind} (id : DeclId) (hkind : kind.isOwn = true) :
      Origin u ⟨name, qualify u.context script, kind, some id⟩

/-- The change gives names a meaning of some origin, and callables slots of their own. -/
def Change.Stocks (u : CompilationUnit) : Change → Prop
  | .counts _ => True
  | .names symbol => Origin u symbol
  | .records _ (.callable k) => ∀ x ∈ k.slots, ∃ stem n, x = mintedId stem n
  | .records _ (.classInfo _) => True

/-- All symbols have an origin in the unit, and all callables have slots of their own. -/
structure Surroundings.Stocked (u : CompilationUnit) (q : Surroundings) : Prop where
  symbols : q.symbols.All (Origin u)
  callables : ∀ id k, q.decls.callable? id = some k → ∀ x ∈ k.slots, ∃ stem n, x = mintedId stem n

/-- So it is while the unit is compiled. -/
structure Surroundings.StockedIn (u : CompilationUnit) (q : Surroundings) : Prop
    extends Surroundings.Stocked u q where
  frame_eq : q.frame = some u.context

theorem methodKind_isOwn (isStatic : Bool) : (methodKind isStatic).isOwn = true := by
  cases isStatic <;> rfl

section Origins

variable {u : CompilationUnit} {q : Surroundings} (hq : q.frame = some u.context)

include hq

theorem FunctionChange.stocks {f : FunctionDecl} {change : Change} (h : FunctionChange q f change) :
    change.Stocks u := by
  cases h with
  | counts n => trivial
  | @symbol name hname =>
    show Origin u _
    rw [Surroundings.qualify_of_frame hq]
    exact .own name name f.id rfl
  | record hk => exact hk.minted

theorem ClassChange.stocks {c : ClassDecl} {info : ClassInfo} {change : Change}
    (hinfo : info.Describes c) (h : ClassChange q c info change) : change.Stocks u := by
  cases h with
  | counts n => trivial
  | symbol =>
    show Origin u _
    rw [Surroundings.qualify_of_frame hq]
    exact .own _ _ c.id rfl
  | member _ h =>
    cases h with
    | counts m n => trivial
    | method isStatic _ _ =>
      show Origin u _
      rw [Surroundings.qualify_of_frame hq]
      exact .own _ _ _ (methodKind_isOwn isStatic)
    | methodRecord isStatic _ hk => exact hk.minted
    | constructorRecord _ hk => exact hk.minted
    | @property p slot hfield =>
      obtain ⟨stem, n, hslot⟩ := hinfo.minted _ hfield
      obtain rfl : slot = mintedId stem n := hslot
      exact .slot _ stem n (.inr rfl)
  | record => trivial

end Origins

namespace Surroundings.StockedIn

variable {u : CompilationUnit} {s t : Session}

theorem changed (h : s.StockedIn u) {change : Change} (hchange : change.Stocks u) :
    (s.changed change).StockedIn u := by
  cases change with
  | counts n => exact ⟨⟨h.symbols, h.callables⟩, h.frame_eq⟩
  | names symbol => exact ⟨⟨h.symbols.register hchange, h.callables⟩, h.frame_eq⟩
  | records id d =>
    refine ⟨⟨h.symbols, fun i k hk => ?_⟩, h.frame_eq⟩
    rcases Session.recorded_callable_cases hk with rfl | hold
    · exact hchange
    · exact h.callables i k hold

theorem changes {P : Change → Prop} (h : s.StockedIn u) (hchanges : Changes P s t)
    (hP : ∀ change, P change → change.Stocks u) : t.StockedIn u :=
  hchanges.keeps (I := fun s => s.StockedIn u) (fun _ _ hchange hs => hs.changed (hP _ hchange)) h

theorem invariant (u : CompilationUnit) : Surroundings.Invariant (StockedIn u) where
  withVariable s name h :=
    ⟨⟨h.symbols.register (.slot name name _ (.inl rfl)), h.callables⟩, h.frame_eq⟩
  function hdeclared h := by
    rcases hdeclared.changes rfl with rfl | ⟨-, hchanges⟩
    · exact h
    · exact h.changes hchanges fun _ hchange => hchange.stocks h.frame_eq
  classDef hdeclared h := by
    rcases hdeclared.changes rfl with rfl | ⟨-, info, hinfo, -, hchanges⟩
    · exact h
    · exact h.changes hchanges fun _ hchange => hchange.stocks h.frame_eq hinfo
  opened s scope slots h := ⟨⟨h.symbols.enter, h.callables⟩, h.frame_eq⟩
  closed _ ht := ⟨⟨ht.symbols.exit, ht.callables⟩, ht.frame_eq⟩

theorem begin (s : Session) (u : CompilationUnit) : (s.begin u).StockedIn u where
  symbols := SymbolTable.all_empty _
  callables := fun id k hk => by
    rw [DeclTable.callable?_none (s.begin_free u id)] at hk
    cases hk
  frame_eq := rfl

theorem imports (s : Session) {line : Nat} {i : Import} (hi : .imports line i ∈ u.statements)
    (h : s.StockedIn u) : (s.registeredAll (importSymbols i)).StockedIn u :=
  h.changes (Changes.registeredAll (P := Change.Stocks u) (fun _ hsymbol => .imported hi hsymbol) s)
    fun _ hchange => hchange

end Surroundings.StockedIn

/-! ## What targets denote -/

namespace Surroundings

variable (q : Surroundings)

/-- The symbol that a target denotes; parameters, members of an imported module and names without a
meaning are no symbols. -/
def denoted? (e : Expr) : Option Symbol :=
  match e.unwrapped with
  | .identifier _ name => if (q.paramSlot? name).isSome then none else q.symbols.lookup name
  | .member _ object name =>
    match q.memberOwner? object with
    | .error _ => none
    | .ok (some owner) => q.symbols.lookup (memberKey owner name)
    | .ok none =>
      if (q.namespace? object).isSome then none
      else q.symbols.lookup (memberKey (objectName object) name)
  | _ => none

/-- What the slot of a target is. -/
inductive Target (u : CompilationUnit) (e : Expr) : String → Prop where
  | parameter {mark : Mark} {name slot stem : String} {n : Nat} (he : e.unwrapped = .identifier mark name)
      (hslot : q.paramSlot? name = some slot) (hminted : slot = mintedId stem n) : Target u e slot
  /-- A variable or a field. -/
  | slot {symbol : Symbol} {stem : String} {n : Nat} (h : q.denoted? e = some symbol)
      (hkind : symbol.kind = .variableName ∨ symbol.kind = .field)
      (hminted : symbol.path = mintedId stem n) : Target u e symbol.path
  | imported {symbol : Symbol} {line : Nat} {i : Import} (h : q.denoted? e = some symbol)
      (hst : .imports line i ∈ u.statements) (hsymbol : symbol ∈ importSymbols i) : Target u e symbol.path
  | moduleMember {mark : Mark} {object : Expr} {name : String} {line : Nat} {i : Import}
      (he : e.unwrapped = .member mark object name) (hst : .imports line i ∈ u.statements)
      (hwhole : i.namespaceName ≠ none) : Target u e (FrameScript.qualify (moduleContext i.module) name)
  | unknown {mark : Mark} {name : String} (he : e.unwrapped = .identifier mark name)
      (hparam : q.paramSlot? name = none) (h : q.symbols.lookup name = none) : Target u e name
  /-- A function, class or method of the unit. -/
  | own {symbol : Symbol} {script : String} (h : q.denoted? e = some symbol)
      (hkind : symbol.kind.isOwn = true) (hpath : symbol.path = FrameScript.qualify u.context script) :
      Target u e symbol.path

variable {q}

/-- The slot of a target is that of a symbol, unless it denotes none. -/
theorem targetSlot_cases {e : Expr} {slot : String} (h : q.targetSlot e = .ok slot) :
    (∃ symbol, q.denoted? e = some symbol ∧ slot = symbol.path) ∨
      (∃ mark name, e.unwrapped = .identifier mark name ∧ q.paramSlot? name = some slot) ∨
      (∃ mark object name module, e.unwrapped = .member mark object name ∧
        q.namespace? object = some module ∧ slot = FrameScript.qualify module name) ∨
      ∃ mark, e.unwrapped = .identifier mark slot ∧ q.paramSlot? slot = none ∧
        q.symbols.lookup slot = none := by
  unfold targetSlot at h
  unfold denoted?
  split at h
  · next mark name hroot =>
    obtain rfl : q.identifierSlot name = slot := Except.ok.inj h
    rw [hroot]
    dsimp only
    unfold identifierSlot SymbolTable.resolve
    cases hparam : q.paramSlot? name with
    | some slot => exact .inr (.inl ⟨mark, name, rfl, hparam⟩)
    | none =>
      cases hsymbol : q.symbols.lookup name with
      | some symbol => exact .inl ⟨symbol, rfl, rfl⟩
      | none => exact .inr (.inr (.inr ⟨mark, rfl, hparam, hsymbol⟩))
  · next mark object name hroot =>
    rw [hroot]
    dsimp only
    -- the symbol of a member that was found
    have howned : ∀ {owner : String}, q.ownedSlot owner object name = .ok slot →
        ∃ symbol, q.symbols.lookup (memberKey owner name) = some symbol ∧ slot = symbol.path := by
      intro owner howned
      unfold ownedSlot at howned
      split at howned
      · next symbol hsymbol => exact ⟨symbol, hsymbol, (Except.ok.inj howned).symm⟩
      · cases howned
    unfold memberSlot at h
    cases howner : q.memberOwner? object with
    | error err =>
      rw [howner] at h
      cases h
    | ok owner =>
      rw [howner] at h
      dsimp only [bind, Except.bind] at h
      cases owner with
      | some owner => exact .inl (howned h)
      | none =>
        dsimp only at h ⊢
        cases hmodule : q.namespace? object with
        | some module =>
          rw [hmodule] at h
          exact .inr (.inr (.inl ⟨mark, object, name, module, rfl, hmodule, (Except.ok.inj h).symm⟩))
        | none =>
          rw [hmodule] at h
          exact .inl (howned h)
  · next mark _ =>
    cases hclass : q.enclosingClass mark.line with
    | error err =>
      rw [hclass] at h
      cases h
    | ok scope =>
      rw [hclass] at h
      cases h
  · cases h

theorem namespace?_eq_some {object : Expr} {module : String} (h : q.namespace? object = some module) :
    ∃ name symbol, q.symbols.lookup name = some symbol ∧ symbol.kind = .namespaceName ∧
      symbol.path = module := by
  unfold namespace? at h
  split at h
  · next mark name _ =>
    split at h
    · next symbol hsymbol =>
      split at h
      · next hkind => exact ⟨name, symbol, hsymbol, hkind, Option.some.inj h⟩
      · cases h
    · cases h
  · cases h

/-- A module as a whole is bound by one kind of import only. -/
theorem importSymbols_namespace {i : Import} {symbol : Symbol} (h : symbol ∈ importSymbols i)
    (hkind : symbol.kind = .namespaceName) :
    i.namespaceName ≠ none ∧ symbol.path = moduleContext i.module := by
  rcases List.mem_append.mp h with h | h
  · rcases List.mem_append.mp h with h | h
    · obtain ⟨name, -, rfl⟩ := Option.map_eq_some_iff.mp (Option.mem_toList.mp h)
      cases hkind
    · obtain ⟨name, hname, rfl⟩ := Option.map_eq_some_iff.mp (Option.mem_toList.mp h)
      exact ⟨by rw [hname]; exact Option.some_ne_none _, rfl⟩
  · obtain ⟨n, -, rfl⟩ := List.mem_map.mp h
    cases hkind

theorem denoted_lookup {e : Expr} {symbol : Symbol} (h : q.denoted? e = some symbol) :
    ∃ key, q.symbols.lookup key = some symbol := by
  unfold denoted? at h
  split at h
  · split at h
    · cases h
    · exact ⟨_, h⟩
  · split at h
    · cases h
    · exact ⟨_, h⟩
    · split at h
      · cases h
      · exact ⟨_, h⟩
  · cases h

/-- **What is assigned is of one of these sorts.** -/
theorem Stocked.target {u : CompilationUnit} (hq : q.Stocked u) {e : Expr} {slot : String}
    (h : q.targetSlot e = .ok slot) : q.Target u e slot := by
  rcases targetSlot_cases h with ⟨symbol, hsymbol, rfl⟩ | ⟨mark, name, he, hparam⟩ |
    ⟨mark, object, name, module, he, hmodule, rfl⟩ | ⟨mark, he, hparam, hnone⟩
  · obtain ⟨key, hlookup⟩ := denoted_lookup hsymbol
    cases hq.symbols.lookup hlookup with
    | slot name stem n hkind => exact .slot hsymbol hkind rfl
    | imported hst hin => exact .imported hsymbol hst hin
    | own name script id hkind => exact .own hsymbol hkind rfl
  · obtain ⟨k, hk, hslot⟩ := Option.bind_eq_some_iff.mp hparam
    obtain ⟨id, -, hk⟩ := Option.bind_eq_some_iff.mp hk
    obtain ⟨param, hfind, rfl⟩ := Option.map_eq_some_iff.mp hslot
    obtain ⟨stem, n, hminted⟩ := hq.callables id k hk param.slot
      (List.mem_append_left _ (List.mem_map_of_mem (List.mem_of_find?_eq_some hfind)))
    exact .parameter he hparam hminted
  · obtain ⟨bound, symbol, hlookup, hkind, rfl⟩ := namespace?_eq_some hmodule
    cases hq.symbols.lookup hlookup with
    | slot name stem n hslot => rcases hslot with rfl | rfl <;> cases hkind
    | imported hst hin =>
      obtain ⟨hwhole, hpath⟩ := importSymbols_namespace hin hkind
      rw [hpath]
      exact .moduleMember he hst hwhole
    | own name script id hown =>
      obtain rfl : _ = SymbolKind.namespaceName := hkind
      cases hown
  · exact .unknown he hparam hnone

theorem enclosingClass_cause {line : Nat} {err : LowerError} (h : q.enclosingClass line = .error err) :
    err.cause = .thisOutsideClass := by
  unfold enclosingClass at h
  split at h
  · cases h
  · cases h
    rfl

/-- The errors of a member are about classes. -/
theorem memberSlot_cause {object : Expr} {name : String} {err : LowerError}
    (h : q.memberSlot object name = .error err) :
    err.cause = .thisOutsideClass ∨ ∃ owner, err.cause = .unknownMember owner name := by
  have howned : ∀ {owner : String}, q.ownedSlot owner object name = .error err →
      ∃ owner, err.cause = .unknownMember owner name := by
    intro owner howned
    unfold ownedSlot at howned
    split at howned
    · cases howned
    · cases howned
      exact ⟨owner, rfl⟩
  unfold memberSlot at h
  cases howner : q.memberOwner? object with
  | error err' =>
    rw [howner] at h
    cases h
    unfold memberOwner? at howner
    split at howner
    · next mark _ =>
      cases hclass : q.enclosingClass mark.line with
      | error err' =>
        rw [hclass] at howner
        cases howner
        exact .inl (enclosingClass_cause hclass)
      | ok scope =>
        rw [hclass] at howner
        cases howner
    · cases howner
    · cases howner
  | ok owner =>
    rw [howner] at h
    dsimp only [bind, Except.bind] at h
    split at h
    · exact .inr (howned h)
    · split at h
      · cases h
      · exact .inr (howned h)

/-- **`NotAssignable` is about the form of the target**: it is neither an identifier nor a member, nor
a `this` outside of a class. -/
theorem targetSlot_notAssignable {e : Expr} :
    (∃ err kind, q.targetSlot e = .error err ∧ err.cause = .notAssignable kind) ↔
      (∀ mark name, e.unwrapped ≠ .identifier mark name) ∧
        (∀ mark object name, e.unwrapped ≠ .member mark object name) ∧
        ∀ mark, e.unwrapped = .this mark → q.scope.enclosing ≠ none := by
  unfold targetSlot
  split
  · next mark name hroot => exact ⟨nofun, fun h => absurd hroot (h.1 mark name)⟩
  · next mark object name hroot =>
    refine ⟨fun ⟨err, kind, herr, hcause⟩ => ?_, fun h => absurd hroot (h.2.1 mark object name)⟩
    rcases memberSlot_cause herr with hother | ⟨owner, hother⟩
    · cases hcause.symm.trans hother
    · cases hcause.symm.trans hother
  · next mark hroot =>
    rw [hroot]
    unfold enclosingClass
    cases q.scope.enclosing with
    | none =>
      refine ⟨fun ⟨err, kind, herr, hcause⟩ => ?_, fun h => absurd rfl (h.2.2 mark rfl)⟩
      cases herr
      cases hcause
    | some scope => exact ⟨fun _ => ⟨nofun, nofun, fun _ _ => nofun⟩, fun _ => ⟨_, _, rfl, rfl⟩⟩
  · next hid hmember hthis =>
    refine ⟨fun _ => ⟨?_, ?_, ?_⟩, fun _ => ⟨_, _, rfl, rfl⟩⟩
    · exact fun mark name heq => hid mark name heq
    · exact fun mark object name heq => hmember mark object name heq
    · exact fun mark heq => absurd heq (hthis mark)

end Surroundings

/-- An update ends with the operation on its target. -/
theorem Lower.updated_last (q : Surroundings) (target : String) (code : Op) (keepOld : Bool) (fx : Effects) :
    ∃ before register, (updated q target code keepOld fx).1.commands =
      before ++ [.operation q.frame target code register] := by
  cases keepOld with
  | false => exact ⟨[_], _, rfl⟩
  | true => exact ⟨[_, _], _, rfl⟩

/-- An assignment or an update ends with the operation that changes its target. -/
theorem Evaluates.changed_last {q : Surroundings} {e target : Expr} (hchanged : e.changed? = some target)
    {fx gx : Effects} {commands : List Command} (h : Evaluates q .dropped e fx commands gx) :
    ∃ slot before code register, q.targetSlot target = .ok slot ∧
      commands = before ++ [.operation q.frame slot code register] := by
  cases h with
  | dropped hrun =>
    cases e with
    | binary m left op right =>
      cases hchanged
      cases Lower.lowered_of_run hrun with
      | store _ hcode htarget hvalue => exact ⟨_, _, _, _, htarget, rfl⟩
      | @square _ _ _ slot commands _ gx htarget hvalue =>
        refine ⟨slot, commands ++ [.operation q.frame gx.scratch .assign slot], .mul, gx.scratch, htarget, ?_⟩
        rw [List.append_assoc]
        rfl
    | unary m op fixity operand =>
      cases hchanged
      cases Lower.lowered_of_run hrun with
      | update _ _ _ hop htarget =>
        obtain ⟨before, register, hlast⟩ := Lower.updated_last q _ _ (fixity = .after) fx
        exact ⟨_, before, _, register, htarget, hlast⟩
    | _ => cases hchanged
  | updated m fixity _ hop htarget =>
    cases hchanged
    obtain ⟨before, register, hlast⟩ := Lower.updated_last q _ _ false fx
    exact ⟨_, before, _, register, htarget, hlast⟩

end FrameScript
