/-
  Symbols and records agree.

  A name finds its way to a script through two tables: the symbol of the name gives a path and a
  declaration, the record of the declaration gives a script.  The two are written at different
  times, so that they fit is an invariant.  A session is coherent when

  1. the symbol of a function, method or class has the path of what is recorded for it,
  2. every other symbol has no declaration, and a path that its kind allows,
  3. the constructor that is known for a class is recorded as one of that class,
  4. slots, script names and the names of extended classes are spelled as the names of the unit are.

  How names are spelled is left open: `Naming` asks only that what is made from such names is
  spelled in the same way.  Where nothing depends on the spelling, any will do (`Naming.any`).

  Lowering keeps a session coherent, and every expression is lowered in coherent surroundings
  (`Runs.coherent`).
-/
import FrameScript.Proofs.Records
import FrameScript.Proofs.Spelling

namespace FrameScript

open Source

/-! ## Symbol tables -/

namespace SymbolTable

/-- Every symbol of the table, shadowed or not, is of some kind that may depend on the name it stands
under. -/
def AllAt (t : SymbolTable) (P : String → Symbol → Prop) : Prop :=
  ∀ scope ∈ t.unitScope :: t.inner, ∀ (name : String) (symbol : Symbol),
    scope[name]? = some symbol → P name symbol

/-- Every symbol of the table, shadowed or not, is of some kind. -/
def All (t : SymbolTable) (P : Symbol → Prop) : Prop :=
  ∀ scope ∈ t.unitScope :: t.inner, ∀ (name : String) (symbol : Symbol),
    scope[name]? = some symbol → P symbol

namespace AllAt

variable {t : SymbolTable} {P : String → Symbol → Prop}

theorem lookup (h : t.AllAt P) {name : String} {symbol : Symbol}
    (hlookup : t.lookup name = some symbol) : P name symbol := by
  obtain ⟨scope, hscope, hsymbol⟩ := List.exists_of_findSome?_eq_some hlookup
  refine h scope ?_ name symbol hsymbol
  rcases List.mem_append.mp hscope with hin | hin
  · exact List.mem_cons_of_mem _ hin
  · exact List.mem_singleton.mp hin ▸ List.mem_cons_self

theorem register (h : t.AllAt P) {symbol : Symbol} (hsymbol : P symbol.name symbol) :
    (t.register symbol).AllAt P := by
  -- the innermost scope has one more symbol
  have hinsert : ∀ (scope : Scope),
      (∀ (name : String) (s : Symbol), scope[name]? = some s → P name s) →
      ∀ (name : String) (s : Symbol), (scope.insert symbol.name symbol)[name]? = some s → P name s := by
    intro scope hscope name s hs
    rw [Std.TreeMap.getElem?_insert] at hs
    split at hs
    · next heq =>
      obtain rfl := Option.some.inj hs
      exact Std.LawfulEqCmp.eq_of_compare heq ▸ hsymbol
    · exact hscope name s hs
  unfold SymbolTable.register
  split
  · next hinner =>
    intro scope hscope
    rcases List.mem_cons.mp hscope with rfl | hscope
    · exact hinsert _ (h _ List.mem_cons_self)
    · exact h scope (List.mem_cons_of_mem _ hscope)
  · next first rest hinner =>
    intro scope hscope
    rcases List.mem_cons.mp hscope with rfl | hscope
    · exact h _ List.mem_cons_self
    · rcases List.mem_cons.mp hscope with rfl | hscope
      · exact hinsert _ (h _ (List.mem_cons_of_mem _ (hinner ▸ List.mem_cons_self)))
      · exact h scope (List.mem_cons_of_mem _ (hinner ▸ List.mem_cons_of_mem _ hscope))

theorem enter (h : t.AllAt P) : t.enter.AllAt P := by
  intro scope hscope name symbol hsymbol
  rcases List.mem_cons.mp hscope with rfl | hscope
  · exact h _ List.mem_cons_self name symbol hsymbol
  · rcases List.mem_cons.mp hscope with rfl | hscope
    · rw [Std.TreeMap.getElem?_emptyc] at hsymbol
      cases hsymbol
    · exact h scope (List.mem_cons_of_mem _ hscope) name symbol hsymbol

theorem exit (h : t.AllAt P) : t.exit.AllAt P := by
  intro scope hscope
  rcases List.mem_cons.mp hscope with rfl | hscope
  · exact h _ List.mem_cons_self
  · exact h scope (List.mem_cons_of_mem _ (List.mem_of_mem_tail hscope))

theorem empty (P : String → Symbol → Prop) : SymbolTable.AllAt {} P := by
  intro scope hscope name symbol hsymbol
  obtain rfl : scope = ∅ := List.mem_singleton.mp hscope
  rw [Std.TreeMap.getElem?_emptyc] at hsymbol
  cases hsymbol

end AllAt

variable {t : SymbolTable} {P Q : Symbol → Prop}

theorem All.at (h : t.All P) : t.AllAt fun _ => P := h

theorem All.mono (h : t.All P) (hPQ : ∀ symbol, P symbol → Q symbol) : t.All Q :=
  fun scope hscope name symbol hsymbol => hPQ symbol (h scope hscope name symbol hsymbol)

theorem All.lookup (h : t.All P) {name : String} {symbol : Symbol}
    (hlookup : t.lookup name = some symbol) : P symbol := h.at.lookup hlookup

theorem All.register (h : t.All P) {symbol : Symbol} (hsymbol : P symbol) :
    (t.register symbol).All P := h.at.register hsymbol

theorem All.enter (h : t.All P) : t.enter.All P := h.at.enter

theorem All.exit (h : t.All P) : t.exit.All P := h.at.exit

theorem all_empty (P : Symbol → Prop) : SymbolTable.All {} P := AllAt.empty fun _ => P

end SymbolTable

/-! ## How names are spelled -/

/-- The context of a unit, the spelling of its names, and that of the contexts of the modules it
imports.  What is made from names is spelled as names are. -/
structure Naming where
  context : String
  plain : String → Prop
  foreign : String → Prop
  plain_minted : ∀ {stem : String} (n : Nat), plain stem → plain (mintedId stem n)
  plain_method : ∀ {className method : String}, plain className → plain method →
    plain (methodScript className method)
  plain_init : ∀ {className : String}, plain className → plain (initScript className)
  plain_return : ∀ {script : String}, plain script → plain (script ++ "_return")
  plain_default : plain defaultStem

namespace Naming

/-- Names may be spelled in any way. -/
def any (context : String) : Naming where
  context
  plain := fun _ => True
  foreign := fun _ => True
  plain_minted := fun _ _ => trivial
  plain_method := fun _ _ => trivial
  plain_init := fun _ => trivial
  plain_return := fun _ => trivial
  plain_default := trivial

variable (N : Naming)

/-- What a symbol may be, given what is recorded. -/
inductive Sound (T : DeclTable) : Symbol → Prop where
  | slot (name : String) {path : String} {kind : SymbolKind} (h : N.plain path)
      (hkind : kind = .variableName ∨ kind = .field) : Sound T ⟨name, path, kind, none⟩
  | imported (bound : String) {module name : String} (hmodule : N.foreign module)
      (hname : N.plain name) : Sound T ⟨bound, qualify module name, .imported, none⟩
  | namespaceName (bound : String) {module : String} (hmodule : N.foreign module) :
      Sound T ⟨bound, module, .namespaceName, none⟩
  | callable (name : String) {kind : SymbolKind} {id : DeclId} {k : Callable}
      (hk : T.callable? id = some k)
      (hkind : kind = .function ∨ kind = .method ∨ kind = .staticMethod) :
      Sound T ⟨name, qualify N.context k.script, kind, some id⟩
  | classDef (name : String) {id : DeclId} {info : ClassInfo} (hinfo : T.class? id = some info) :
      Sound T ⟨name, qualify N.context info.name, .classDef, some id⟩

/-- What a record may be, given what else is recorded. -/
def SoundRecord (T : DeclTable) : Declaration → Prop
  | .callable k => N.plain k.script ∧ ∀ x ∈ k.slots, N.plain x
  | .classInfo info => N.plain info.name ∧ ∀ c, info.constructor = some c →
      ∃ k, T.callable? c = some k ∧ k.script = initScript info.name

/-- Symbols and records agree with a table. -/
structure Holds (T : DeclTable) (q : Surroundings) : Prop where
  frame_eq : q.frame = some N.context
  symbols : q.symbols.All (N.Sound T)
  records : ∀ (i : DeclId) (d : Declaration), q.decls[i]? = some d → N.SoundRecord T d
  parents : ∀ c, q.scope.enclosing = some c → ∀ name ∈ c.names, N.plain name

/-- Symbols and records agree. -/
def Coherent (q : Surroundings) : Prop := N.Holds q.decls q

variable {N}

theorem Sound.mono {T T' : DeclTable} (hsub : T.Sub T') {symbol : Symbol} (h : N.Sound T symbol) :
    N.Sound T' symbol := by
  cases h with
  | slot name h hkind => exact .slot name h hkind
  | imported bound hmodule hname => exact .imported bound hmodule hname
  | namespaceName bound hmodule => exact .namespaceName bound hmodule
  | callable name hk hkind => exact .callable name (hsub.callable hk) hkind
  | classDef name hinfo => exact .classDef name (hsub.classInfo hinfo)

theorem SoundRecord.mono {T T' : DeclTable} (hsub : T.Sub T') {d : Declaration}
    (h : N.SoundRecord T d) : N.SoundRecord T' d := by
  cases d with
  | callable k => exact h
  | classInfo info =>
    refine ⟨h.1, fun c hc => ?_⟩
    obtain ⟨k, hk, hscript⟩ := h.2 c hc
    exact ⟨k, hsub.callable hk, hscript⟩

theorem Holds.mono {T T' : DeclTable} (hsub : T.Sub T') {q : Surroundings} (h : N.Holds T q) :
    N.Holds T' q where
  frame_eq := h.frame_eq
  symbols := h.symbols.mono fun _ hs => hs.mono hsub
  records := fun i d hd => (h.records i d hd).mono hsub
  parents := h.parents

/-- Paths are made in the context of the unit. -/
theorem Holds.qualify_eq {T : DeclTable} {q : Surroundings} (h : N.Holds T q) (script : String) :
    q.qualify script = FrameScript.qualify N.context script :=
  Surroundings.qualify_of_frame h.frame_eq script

/-! ## Steps -/

namespace Holds

variable {T : DeclTable} {s : Session}

theorem registered (h : N.Holds T s.toSurroundings) {symbol : Symbol} (hs : N.Sound T symbol) :
    N.Holds T (s.registered symbol).toSurroundings where
  frame_eq := h.frame_eq
  symbols := h.symbols.register hs
  records := h.records
  parents := h.parents

theorem recorded (h : N.Holds T s.toSurroundings) (id : DeclId) {d : Declaration}
    (hd : N.SoundRecord T d) : N.Holds T (s.recorded id d).toSurroundings where
  frame_eq := h.frame_eq
  symbols := h.symbols
  records := by
    intro i e he
    by_cases hi : i = id
    · subst hi
      rw [s.recorded_self] at he
      exact Option.some.inj he ▸ hd
    · rw [s.recorded_other d hi] at he
      exact h.records i e he
  parents := h.parents

theorem named (h : N.Holds T s.toSurroundings) (name : Option String) :
    N.Holds T (s.named name).2.toSurroundings := by
  cases name with
  | some name => exact h
  | none => exact h

theorem opened (h : N.Holds T s.toSurroundings) {scope : LexicalScope} (slots : List String)
    (hscope : ∀ c, scope.enclosing = some c → ∀ name ∈ c.names, N.plain name) :
    N.Holds T (s.opened scope slots).toSurroundings where
  frame_eq := h.frame_eq
  symbols := h.symbols.enter
  records := h.records
  parents := hscope

/-- After a script the scope is again that around it. -/
theorem closed (h : N.Holds T s.toSurroundings) {t : Session} (ht : N.Holds T t.toSurroundings) :
    N.Holds T (s.closed t).toSurroundings where
  frame_eq := ht.frame_eq
  symbols := ht.symbols.exit
  records := ht.records
  parents := h.parents

theorem stored (h : N.Holds T s.toSurroundings) (name : String) (body : List Command) (line : Nat) :
    N.Holds T (s.stored name body line).toSurroundings := by
  obtain ⟨ws, hws⟩ := s.stored_eq_noting name body line
  rw [hws]
  exact h

theorem registeredAll (h : N.Holds T s.toSurroundings) {symbols : List Symbol}
    (hs : ∀ symbol ∈ symbols, N.Sound T symbol) :
    N.Holds T (s.registeredAll symbols).toSurroundings := by
  induction symbols generalizing s with
  | nil => exact h
  | cons symbol rest ih =>
    refine ih (s := s.registered symbol) (h.registered (hs symbol List.mem_cons_self)) ?_
    exact fun symbol' hsymbol' => hs symbol' (List.mem_cons_of_mem _ hsymbol')

end Holds

/-! ## Declaring -/

theorem plain_named (s : Session) {name : Option String} (h : ∀ n ∈ name.toList, N.plain n) :
    N.plain (s.named name).1 := by
  cases name with
  | some name => exact h name List.mem_cons_self
  | none => exact N.plain_minted _ N.plain_default

/-- The slots of a callable are spelled as its parameters and its script are. -/
theorem sound_callable {T : DeclTable} {k : Callable} {s : Session} {script : String}
    {f : FunctionDecl} (hk : k.MadeOf s script f) (hscript : N.plain script)
    (hparams : ∀ n ∈ f.params.flatMap (·.binding.names), N.plain n) :
    N.SoundRecord T (.callable k) := by
  have hstem : ∀ stem ∈ f.stems script, N.plain stem := by
    intro stem hstem
    rcases List.mem_append.mp hstem with hin | hin
    · obtain ⟨p, hp, rfl⟩ := List.mem_map.mp hin
      unfold Param.name?
      split
      · next name hname =>
        refine hparams name (List.mem_flatMap.mpr ⟨p, hp, ?_⟩)
        rw [hname]
        exact List.mem_cons_self
      · exact N.plain_default
    · split at hin
      · exact List.mem_singleton.mp hin ▸ N.plain_return hscript
      · exact absurd hin List.not_mem_nil
  refine ⟨hk.script_eq ▸ hscript, fun x hx => ?_⟩
  rw [hk.slots_eq] at hx
  obtain ⟨stem, hin, n, rfl⟩ := Allocator.mem_idsAfter hx
  exact N.plain_minted n (hstem stem hin)

namespace Holds

variable {T : DeclTable} {s t : Session}

/-- A callable that was made in these surroundings has a path of the unit. -/
theorem path_eq (h : N.Holds T s.toSurroundings) {k : Callable} {script : String} {f : FunctionDecl}
    (hk : k.MadeOf s script f) : k.path = qualify N.context k.script := by
  rw [hk.path_eq, h.qualify_eq, hk.script_eq]

theorem withCallable (h : N.Holds T s.toSurroundings) (id : DeclId) {k : Callable}
    (hk : N.SoundRecord T (.callable k)) : N.Holds T (s.withCallable id k).toSurroundings := by
  have hcounted : N.Holds T (s.counted k.slots.length).toSurroundings := h
  exact hcounted.recorded id hk

theorem function {f : FunctionDecl} (hdeclared : FunctionDeclared s f t) (hsub : t.decls.Sub T)
    (hnames : ∀ n ∈ f.names, N.plain n) (h : N.Holds T s.toSurroundings) :
    N.Holds T t.toSurroundings := by
  cases hdeclared with
  | known _ => exact h
  | fresh k _ _ hk =>
    have hown := fun n hn => hnames n (f.names_subset hn)
    have hname := plain_named s fun n hn => hown n (List.mem_append_left _ hn)
    have hnamed := h.named f.name
    have hrecorded : T.callable? f.id = some k := hsub.callable (Session.recorded_callable _ _ _)
    have hsymbol : N.Sound T ⟨(s.named f.name).1, k.path, .function, some f.id⟩ := by
      rw [hnamed.path_eq hk]
      exact .callable _ hrecorded (.inl rfl)
    refine (hnamed.registered hsymbol).withCallable _ ?_
    exact sound_callable hk hname fun n hn => hown n (List.mem_append_right _ hn)

theorem member {info info' : ClassInfo} {m : Member} (hdeclared : MemberDeclared info s m info' t)
    (hsub : t.decls.Sub T) (hnames : ∀ n ∈ m.names, N.plain n)
    (hinfo : N.SoundRecord T (.classInfo info)) (h : N.Holds T s.toSurroundings) :
    N.SoundRecord T (.classInfo info') ∧ N.Holds T t.toSurroundings := by
  cases hdeclared with
  | @method f isStatic name k hname hbody hk =>
    have hown := fun n hn => hnames n (f.names_subset hn)
    have hplain : N.plain name := hown name (List.mem_append_left _ (hname ▸ List.mem_cons_self))
    have hrecorded : T.callable? f.id = some k := hsub.callable (Session.recorded_callable _ _ _)
    have hkind : methodKind isStatic = .function ∨ methodKind isStatic = .method ∨
        methodKind isStatic = .staticMethod := by
      cases isStatic with
      | true => exact .inr (.inr rfl)
      | false => exact .inr (.inl rfl)
    have hsymbol : N.Sound T ⟨memberKey info.name name, k.path, methodKind isStatic, some f.id⟩ := by
      rw [h.path_eq hk]
      exact .callable _ hrecorded hkind
    refine ⟨hinfo, (h.registered hsymbol).withCallable _ ?_⟩
    exact sound_callable hk (N.plain_method hinfo.1 hplain) fun n hn => hown n (List.mem_append_right _ hn)
  | @constructor f k hbody hk =>
    have hrecorded : T.callable? f.id = some k := hsub.callable (Session.recorded_callable _ _ _)
    have hown := fun n hn => hnames n (f.names_subset hn)
    refine ⟨⟨hinfo.1, fun c hc => ?_⟩, h.withCallable _ ?_⟩
    · obtain rfl := Option.some.inj hc
      exact ⟨k, hrecorded, hk.script_eq⟩
    · exact sound_callable hk (N.plain_init hinfo.1) fun n hn => hown n (List.mem_append_right _ hn)
  | property p =>
    have hplain : N.plain (s.nextId (some (methodScript info.name p.name))) :=
      N.plain_minted _ (N.plain_method hinfo.1 (hnames _ List.mem_cons_self))
    have hcounted : N.Holds T (s.counted 1).toSurroundings := h
    exact ⟨hinfo, hcounted.registered (.slot _ hplain (.inr rfl))⟩
  | nothing _ _ _ _ => exact ⟨hinfo, h⟩

theorem members {info info' : ClassInfo} {ms : List Member}
    (hdeclared : MembersDeclared info s ms info' t) (hnodup : (ms.flatMap Member.ownIds).Nodup)
    (hfree : ∀ i ∈ ms.flatMap Member.ownIds, s.decls[i]? = none) (hsub : t.decls.Sub T)
    (hnames : ∀ n ∈ memberNames ms, N.plain n) (hinfo : N.SoundRecord T (.classInfo info))
    (h : N.Holds T s.toSurroundings) :
    N.SoundRecord T (.classInfo info') ∧ N.Holds T t.toSurroundings := by
  induction hdeclared with
  | nil info s => exact ⟨hinfo, h⟩
  | @cons info info' info'' s t u m rest hfirst hrest ih =>
    rw [List.flatMap_cons] at hnodup hfree
    obtain ⟨-, hnodup', hdisjoint⟩ := List.nodup_append'.mp hnodup
    have hfree' : ∀ i ∈ rest.flatMap Member.ownIds, t.decls[i]? = none := by
      intro i hi
      rw [hfirst.decls_eq fun hin => hdisjoint hin hi]
      exact hfree i (List.mem_append_right _ hi)
    have hlater : t.decls.Sub u.decls := hrest.sub hnodup' hfree'
    obtain ⟨hinfo', ht⟩ := member hfirst (hlater.trans hsub)
      (fun n hn => hnames n (List.mem_append_left _ hn)) hinfo h
    exact ih hnodup' hfree' hsub (fun n hn => hnames n (List.mem_append_right _ hn)) hinfo' ht

theorem classDef {c : ClassDecl} (hdeclared : ClassDeclared s c t) (hnodup : c.declIds.Nodup)
    (hfiled : c.Filed s.decls) (hsub : t.decls.Sub T) (hnames : ∀ n ∈ c.names, N.plain n)
    (h : N.Holds T s.toSurroundings) : N.Holds T t.toSurroundings := by
  cases hdeclared with
  | known _ => exact h
  | @fresh info u _ hfresh hmembers =>
    obtain ⟨hid, hown⟩ := List.nodup_cons.mp (ClassDecl.nodup_own hnodup)
    have hfree := hfiled.free hfresh
    rw [c.names_eq] at hnames
    have hname := plain_named s fun n hn =>
      hnames n (List.mem_append_left _ (List.mem_append_left _ hn))
    have hnamed := h.named c.name
    have hrecorded : T.class? c.id = some info := hsub.classInfo (Session.recorded_class _ _ _)
    -- the symbol of the class stands before its record, but both are there in the end
    have hsymbol : N.Sound T ⟨(s.named c.name).1, (s.named c.name).2.qualify (s.named c.name).1,
        .classDef, some c.id⟩ := by
      rw [hnamed.qualify_eq]
      have hinfo : info.name = (s.named c.name).1 := hmembers.name_eq
      rw [← hinfo]
      exact .classDef _ hrecorded
    have hbare : N.SoundRecord T (.classInfo ((s.named c.name).2.bareClass (s.named c.name).1)) :=
      ⟨hname, fun c hc => nomatch hc⟩
    have hfree' : ∀ i ∈ c.members.flatMap Member.ownIds, (s.named c.name).2.decls[i]? = none := by
      rw [s.named_decls]
      exact fun i hi => hfree i (List.mem_cons_of_mem _ hi)
    have hufree : u.decls[c.id]? = none := by
      rw [hmembers.decls_eq hid]
      exact (congrArg (·[c.id]?) (s.named_decls c.name)).trans (hfree c.id List.mem_cons_self)
    obtain ⟨hinfo, hu⟩ := members hmembers hown hfree'
      ((DeclTable.Sub.recorded hufree (.classInfo info)).trans hsub)
      (fun n hn => hnames n (List.mem_append_right _ hn)) hbare (hnamed.registered hsymbol)
    exact hu.recorded _ hinfo

theorem imports (i : Import) (hmodule : N.foreign (moduleContext i.module))
    (hnames : ∀ n ∈ i.names, N.plain n) (h : N.Holds T s.toSurroundings) :
    N.Holds T (s.registeredAll (importSymbols i)).toSurroundings := by
  refine h.registeredAll fun symbol hsymbol => ?_
  rcases List.mem_append.mp hsymbol with hsymbol | hsymbol
  · rcases List.mem_append.mp hsymbol with hsymbol | hsymbol
    · obtain ⟨name, hname, rfl⟩ := Option.map_eq_some_iff.mp (Option.mem_toList.mp hsymbol)
      refine .imported name hmodule (hnames name ?_)
      exact List.mem_append_left _ (List.mem_append_left _ (Option.mem_toList.mpr hname))
    · obtain ⟨name, hname, rfl⟩ := Option.map_eq_some_iff.mp (Option.mem_toList.mp hsymbol)
      exact .namespaceName name hmodule
  · obtain ⟨n, hn, rfl⟩ := List.mem_map.mp hsymbol
    refine .imported n.bound hmodule (hnames n.name (List.mem_append_right _ ?_))
    exact List.mem_flatMap.mpr ⟨n, hn, List.mem_cons_self⟩

theorem statements {sts : List Stmt} (hdeclared : UnitDeclared s sts t)
    (hnodup : (declIds sts).Nodup) (hfree : ∀ i ∈ declIds sts, s.decls[i]? = none)
    (hsub : t.decls.Sub T) (hnames : ∀ n ∈ stmtNames sts, N.plain n)
    (himports : ∀ line i, .imports line i ∈ sts → N.foreign (moduleContext i.module))
    (h : N.Holds T s.toSurroundings) : N.Holds T t.toSurroundings := by
  induction hdeclared with
  | nil s => exact h
  | @cons s t u st rest hfirst hrest ih =>
    rw [declIds] at hnodup hfree
    rw [stmtNames] at hnames
    obtain ⟨hst, hnodup', hdisjoint⟩ := List.nodup_append'.mp hnodup
    have hfree' : ∀ i ∈ declIds rest, t.decls[i]? = none := by
      intro i hi
      rw [hfirst.decls_eq fun hin => hdisjoint hin hi]
      exact hfree i (List.mem_append_right _ hi)
    have hlater := (hrest.sub hnodup' hfree').trans hsub
    have hown := fun n hn => hnames n (List.mem_append_left _ hn)
    have ht : N.Holds T t.toSurroundings := by
      cases hfirst with
      | imports line i => exact imports i (himports line i List.mem_cons_self) hown h
      | function hf => exact function hf hlater hown h
      | @classDef c t hc =>
        refine classDef hc hst (.inl fun i hi => ?_) hlater hown h
        exact hfree i (List.mem_append_left _ (c.ownIds_subset hi))
      | nothing st => exact h
    refine ih hnodup' hfree' hsub (fun n hn => hnames n (List.mem_append_right _ hn)) ?_ ht
    exact fun line i hi => himports line i (List.mem_cons_of_mem _ hi)

end Holds

/-! ## Lowering -/

theorem Coherent.withVariable {s : Session} (h : N.Coherent s.toSurroundings) {name : String}
    (hname : N.plain name) : N.Coherent (s.withVariable name).toSurroundings := by
  have hslot : N.plain (s.variableSlot name) := N.plain_minted _ hname
  have hdeclaring : N.Holds s.decls ((s.counted 1).declaring [s.variableSlot name]).toSurroundings := h
  exact hdeclaring.registered (.slot name hslot (.inl rfl))

/-- What is known where an expression is lowered, when a unit ends with the given table. -/
structure Sees (N : Naming) (T : DeclTable) (q : Surroundings) (e : Expr) : Prop where
  coherent : N.Coherent q
  sub : q.decls.Sub T
  names : ∀ n ∈ e.names, N.plain n

theorem Sees.mono {T T' : DeclTable} (hsub : T.Sub T') {q : Surroundings} {e : Expr}
    (h : N.Sees T q e) : N.Sees T' q e := ⟨h.coherent, h.sub.trans hsub, h.names⟩

end Naming

/-- **Lowering keeps symbols and records in agreement**, and every expression is lowered where they
agree. -/
theorem Runs.coherent {N : Naming} {task : Task} {s t : Session} {log : List Event}
    {out : Emitted Flow} (h : Runs task s log out t) (hfit : task.Fit s.decls)
    (hnames : ∀ n ∈ task.names, N.plain n) (hs : N.Coherent s.toSurroundings) :
    N.Coherent t.toSurroundings ∧ ∀ q e, .lowers q e ∈ log → N.Sees t.decls q e := by
  induction h with
  | idle h =>
    obtain ⟨ws, rfl⟩ := h.eq_noting
    exact ⟨hs, fun q e hin => absurd hin List.not_mem_nil⟩
  | seq hsplit hfirst hrest ihfirst ihrest =>
    have hnames' := Task.split_names hsplit
    have hfit' := hfit.rest hsplit hfirst
    obtain ⟨ht, hlog⟩ := ihfirst (hfit.first hsplit) (fun n hn => hnames n (hnames'.1 hn)) hs
    obtain ⟨hu, hlog'⟩ := ihrest hfit' (fun n hn => hnames n (hnames'.2 hn)) ht
    refine ⟨hu, fun q e hin => ?_⟩
    rcases List.mem_append.mp hin with hin | hin
    · exact (hlog q e hin).mono (hrest.sub hfit')
    · exact hlog' q e hin
  | @returned st s t log commands rest hfirst ih =>
    obtain ⟨ht, hlog⟩ := ih (hfit.first rfl) (fun n hn => hnames n (List.mem_append_left _ hn)) hs
    obtain ⟨ws, hws⟩ := t.skipping_eq_noting rest
    rw [hws]
    exact ⟨ht, hlog⟩
  | inside hinside _ ih =>
    exact ih (hfit.inside hinside) (Task.inside_names hinside ▸ hnames) hs
  | @declares d name hname hinit s =>
    have hplain : N.plain name := by
      refine hnames name (List.mem_append_left _ ?_)
      rw [hname]
      exact List.mem_cons_self
    exact ⟨hs.withVariable hplain, fun q e hin => absurd hin List.not_mem_nil⟩
  | @evaluates task s t use e flow commands fx htask he =>
    have ht : N.Coherent t.toSurroundings := by
      rcases htask.prepared with ⟨ws, rfl⟩ | ⟨d, name, rfl, hname, rfl⟩
      · exact hs
      · refine hs.withVariable (hnames name (List.mem_append_left _ ?_))
        rw [hname]
        exact List.mem_cons_self
    refine ⟨ht, fun q e' hin => ?_⟩
    cases List.mem_singleton.mp hin
    exact ⟨ht, .refl _, fun n hn => hnames n (htask.names_subset hn)⟩
  | @function f body s t u log out hbody hdeclared _ ih =>
    have ht : N.Coherent t.toSurroundings :=
      Naming.Holds.function hdeclared (.refl _) hnames (hs.mono hdeclared.sub)
    obtain ⟨ws, hws⟩ := t.warnedIf_eq_noting f.isAsync f.line "async function is lowered synchronously"
    rw [hws] at ih
    refine ih (hfit.function hbody hdeclared _ _ _) (fun n hn => ?_) ht
    rcases Task.function_names hbody hn with ⟨c, hc, hn⟩ | hn
    · exact ht.parents c hc n hn
    · exact hnames n hn
  | @method info scope f isStatic body s t log out hbody _ ih =>
    obtain ⟨ws, hws⟩ := s.warnedIf_eq_noting f.isAsync f.line "async method is lowered synchronously"
    rw [hws] at ih
    exact ih (hfit.method hbody _ _ _)
      (fun n hn => hnames n (Task.method_names hbody info scope isStatic _ _ hn)) hs
  | @classDef c info s t u log out hown hdeclared hinfo _ ih =>
    have ht : N.Coherent t.toSurroundings := Naming.Holds.classDef hdeclared hfit.nodup
      hfit.ready.filed (.refl _) hnames (hs.mono (hfit.class_sub hdeclared))
    exact ih (hfit.classDef hdeclared hinfo _ _)
      (fun n hn => hnames n (Task.class_names c info c.line hn)) ht
  | @script task s t script log out hopens hrun ih =>
    have hbody := hfit.script hopens
    obtain ⟨hscope, hinner⟩ := hopens.names_subset
    obtain ⟨ht, hlog⟩ := ih hbody (fun n hn => hnames n (hinner hn))
      (hs.opened script.slots fun c hc n hn => hnames n (hscope c hc hn))
    have hsub : s.decls.Sub t.decls := hrun.sub hbody
    refine ⟨?_, fun q e hin => ?_⟩
    · have hclosed : N.Holds t.decls (s.closed t).toSurroundings := (hs.mono hsub).closed ht
      have hstored := hclosed.stored script.name
        (declarations t.allocator.preamble ++ script.prologue ++ out.commands) script.line
      rw [Naming.Coherent, Session.stored_decls]
      exact hstored
    · rw [Session.stored_decls]
      rcases List.mem_append.mp hin with hin | hin
      · -- entering a script is no lowering of an expression
        obtain ⟨id, -, hevent⟩ := Option.map_eq_some_iff.mp (Option.mem_toList.mp hin)
        cases hevent
      · exact hlog q e hin
  | constructor hfound _ ih =>
    exact ih (hfit.constructor hfound _ _)
      (fun n hn => hnames n (Task.constructor_names hfound _ _ _ hn)) hs
  | @defaulted info scope ms line hnone s =>
    refine ⟨?_, fun q e hin => absurd hin List.not_mem_nil⟩
    rw [Naming.Coherent, Session.stored_decls]
    exact hs.stored _ _ _

end FrameScript
