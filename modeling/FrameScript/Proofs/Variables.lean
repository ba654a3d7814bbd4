/-
  One slot for a variable.

  A variable at the top of a unit gets its slot where its declaration is reached; it is not declared
  beforehand as functions and classes are.  So the order of the statements decides what its name
  stands for: before the declaration for itself, and from there on for the slot, in the bodies of
  functions and methods too, since these are lowered where they stand.

  1. `Stmt.Binds` says what else may give a name a meaning.
  2. While nothing binds a name, its meaning stays what it is, in all scopes (`Surroundings.Knows`,
     `Runs.knows`).
  3. The log of a unit is cut at the declaration (`Lower.stmts_around`), and the two parts are
     followed on their own.
-/
import FrameScript.Proofs.Changes
import FrameScript.Proofs.Dangling
import FrameScript.Proofs.Ledger

namespace FrameScript

open Source

/-! ## Who binds a name -/

/-- The names that an import binds. -/
def Source.Import.bound (i : Import) : List String :=
  i.default.toList ++ i.namespaceName.toList ++ i.named.map ImportName.bound

/-- The name under which a member is known, beside that of its class. -/
def Source.Member.key? : Member → Option String
  | .method f _ => f.name
  | .property p => some p.name
  | .constructor _ | .other .. => none

mutual

/-- The statement gives the name a meaning, somewhere inside it.  A function or class without a name
takes an id, and may get any. -/
def Source.Stmt.Binds (x : String) : Stmt → Prop
  | .block _ body => stmtsBind x body
  | .imports _ i => x ∈ i.bound
  | .bindings _ ds => ∃ d ∈ ds, d.binding = .identifier x
  | .function f => f.body ≠ none ∧ GoesBy f.name x ∨ f.Binds x
  | .classDef c => c.Binds x
  | .expression .. | .returning .. | .typeOnly _ | .empty _ | .other .. => False

/-- One of the statements binds the name. -/
def Source.stmtsBind (x : String) : List Stmt → Prop
  | [] => False
  | st :: rest => st.Binds x ∨ stmtsBind x rest

/-- A parameter has the name, or the body binds it. -/
def Source.FunctionDecl.Binds (x : String) : FunctionDecl → Prop
  | ⟨_, _, params, some body, _, _⟩ => (∃ p ∈ params, p.name? = some x) ∨ stmtsBind x body
  | ⟨_, _, _, none, _, _⟩ => False

/-- The class has the name, or a member is known by it, or binds it. -/
def Source.ClassDecl.Binds (x : String) : ClassDecl → Prop
  | ⟨_, name, _, isDeclared, isAbstract, members, _⟩ => (isDeclared || isAbstract) = false ∧
    (GoesBy name x ∨ (∃ m ∈ members, ∃ owner key, GoesBy name owner ∧ m.key? = some key ∧
      x = memberKey owner key) ∨ membersBind x members)

def Source.Member.Binds (x : String) : Member → Prop
  | .method f _ => f.Binds x
  | .constructor f => f.Binds x
  | .property _ | .other .. => False

/-- One of the members binds the name, in its parameters or body. -/
def Source.membersBind (x : String) : List Member → Prop
  | [] => False
  | m :: rest => m.Binds x ∨ membersBind x rest

end

variable {x : String}

theorem Source.stmtsBind_iff {sts : List Stmt} : stmtsBind x sts ↔ ∃ st ∈ sts, st.Binds x := by
  induction sts with
  | nil => exact ⟨False.elim, fun ⟨_, hst, _⟩ => absurd hst List.not_mem_nil⟩
  | cons st rest ih => rw [stmtsBind, ih, List.exists_mem_cons_iff]

theorem Source.membersBind_iff {ms : List Member} : membersBind x ms ↔ ∃ m ∈ ms, m.Binds x := by
  induction ms with
  | nil => exact ⟨False.elim, fun ⟨_, hm, _⟩ => absurd hm List.not_mem_nil⟩
  | cons m rest ih => rw [membersBind, ih, List.exists_mem_cons_iff]

theorem Source.FunctionDecl.binds_of_body {f : FunctionDecl} {body : List Stmt}
    (h : f.body = some body) :
    f.Binds x ↔ (∃ p ∈ f.params, p.name? = some x) ∨ stmtsBind x body := by
  obtain ⟨id, name, params, body', isAsync, line⟩ := f
  cases h
  rfl

theorem Source.ClassDecl.binds_iff (c : ClassDecl) :
    c.Binds x ↔ (c.isDeclared || c.isAbstract) = false ∧
      (GoesBy c.name x ∨ (∃ m ∈ c.members, ∃ owner key, GoesBy c.name owner ∧ m.key? = some key ∧
        x = memberKey owner key) ∨ membersBind x c.members) := by
  obtain ⟨id, name, parent, isDeclared, isAbstract, members, line⟩ := c
  rfl

/-- The work binds the name.  What its declarations bind is bound before their bodies are lowered. -/
def Task.Binds (x : String) : Task → Prop
  | .stmts body | .callable _ _ _ _ body => stmtsBind x body
  | .stmt st => st.Binds x
  | .declarators ds => ∃ d ∈ ds, d.binding = .identifier x
  | .declarator d => d.binding = .identifier x
  | .members _ _ ms _ | .bodies _ _ ms _ | .initializer _ _ ms _ | .methods _ _ ms => membersBind x ms
  | .method _ _ m => m.Binds x
  | .fieldsScript .. | .fields .. | .field .. => False

theorem Task.split_binds {task first rest : Task} (h : task.split = some (first, rest)) :
    (first.Binds x → task.Binds x) ∧ (rest.Binds x → task.Binds x) := by
  cases Task.splits h with
  | stmts => exact ⟨.inl, .inr⟩
  | declarators d ds =>
    refine ⟨fun hd => ⟨d, List.mem_cons_self, hd⟩, ?_⟩
    rintro ⟨d', hd', hbinding⟩
    exact ⟨d', List.mem_cons_of_mem _ hd', hbinding⟩
  | members => exact ⟨False.elim, id⟩
  | bodies => exact ⟨id, id⟩
  | fields => exact ⟨id, id⟩
  | methods => exact ⟨.inl, .inr⟩

theorem Task.inside_binds {task inner : Task} (h : task.inside = some inner) :
    inner.Binds x → task.Binds x := by
  cases Task.encloses h <;> exact id

theorem knownConstructor_binds {info : ClassInfo} {ms : List Member} {id : DeclId} {line : Nat}
    {body : List Stmt} (h : knownConstructor info ms = some (id, line, body))
    (hbody : stmtsBind x body) : membersBind x ms := by
  obtain ⟨f, hf, -, hsome⟩ := knownConstructor_mem h
  exact membersBind_iff.mpr ⟨_, hf, (FunctionDecl.binds_of_body hsome).mpr (.inr hbody)⟩

/-! ## The meaning of a name -/

/-- No parameter of the declaration has the name. -/
def Declaration.Spares (x : String) : Declaration → Prop
  | .callable k => ∀ p ∈ k.params, p.name ≠ some x
  | .classInfo _ => True

theorem Declaration.Spares.paramSlot_eq {k : Callable} (h : (Declaration.callable k).Spares x) :
    k.paramSlot? x = none :=
  Option.map_eq_none_iff.mpr (List.find?_eq_none.mpr fun p hp hname => h p hp (of_decide_eq_true hname))

/-- The change leaves the name alone. -/
def Change.Spares (x : String) : Change → Prop
  | .counts _ => True
  | .names symbol => symbol.name ≠ x
  | .records _ d => d.Spares x

/-- The name has its meaning in the scope of the unit, or none at all: no scope inside and no
parameter hides it. -/
structure Surroundings.Knows (q : Surroundings) (x : String) (found : Option Symbol) (depth : Nat) :
    Prop where
  unitScope : q.symbols.unitScope[x]? = found
  inner : ∀ scope ∈ q.symbols.inner, scope[x]? = none
  depth_eq : q.symbols.depth = depth
  params : ∀ id k, q.decls.callable? id = some k → (Declaration.callable k).Spares x

namespace Surroundings.Knows

variable {q : Surroundings} {found : Option Symbol} {depth : Nat}

theorem lookup_eq (h : q.Knows x found depth) : q.symbols.lookup x = found := by
  have hnone : q.symbols.inner.findSome? (·[x]?) = none := List.findSome?_eq_none_iff.mpr h.inner
  rw [SymbolTable.lookup, List.findSome?_append, hnone, Option.none_or, List.findSome?_singleton]
  exact h.unitScope

theorem paramSlot_eq (h : q.Knows x found depth) : q.paramSlot? x = none := by
  refine Option.bind_eq_none_iff.mpr fun k hk => ?_
  obtain ⟨id, -, hk⟩ := Option.bind_eq_some_iff.mp hk
  exact Declaration.Spares.paramSlot_eq (h.params id k hk)

end Surroundings.Knows

/-- Wherever the identifier stands in an expression, it becomes the slot: as a value, on the left of
an assignment or under an update, and as what is called. -/
structure Surroundings.LowersTo (q : Surroundings) (x slot : String) : Prop where
  value : ∀ (m : Mark) (fx : Effects),
    (Lower.expr q (.identifier m x)).run fx = (.ok ⟨[], some (.slot slot)⟩, fx)
  target : ∀ m : Mark, q.targetSlot (.identifier m x) = .ok slot
  callee : ∀ m : Mark, Lower.namedCallee? q (.identifier m x) = .ok (some ⟨slot, none⟩)

/-- Where no parameter has the name, a variable that the table has under it stands for its slot. -/
theorem Surroundings.LowersTo.of_lookup {q : Surroundings} {slot : String} (hparam : q.paramSlot? x = none)
    (hlookup : q.symbols.lookup x = some ⟨x, slot, .variableName, none⟩) : q.LowersTo x slot := by
  have hslot : q.identifierSlot x = slot := by
    rw [identifierSlot, hparam, SymbolTable.resolve, hlookup]
    rfl
  refine ⟨fun m fx => ?_, fun m => ?_, fun m => ?_⟩
  · rw [Lower.expr, hslot]
    rfl
  · exact congrArg Except.ok hslot
  · show Except.ok (some (q.functionCallee x)) = _
    rw [functionCallee, hparam, hlookup]

namespace Surroundings.Knows

variable {q : Surroundings} {depth : Nat}

/-- An unknown name stands for itself. -/
theorem lowersTo_self (h : q.Knows x none depth) : q.LowersTo x x := by
  have hslot : q.identifierSlot x = x := by
    rw [identifierSlot, h.paramSlot_eq, SymbolTable.resolve, h.lookup_eq]
    rfl
  refine ⟨fun m fx => ?_, fun m => ?_, fun m => ?_⟩
  · rw [Lower.expr, hslot]
    rfl
  · exact congrArg Except.ok hslot
  · show Except.ok (some (q.functionCallee x)) = _
    rw [functionCallee, h.paramSlot_eq, h.lookup_eq]

/-- The name of a variable stands for its slot. -/
theorem lowersTo_slot {slot : String} (h : q.Knows x (some ⟨x, slot, .variableName, none⟩) depth) :
    q.LowersTo x slot :=
  .of_lookup h.paramSlot_eq h.lookup_eq

end Surroundings.Knows

namespace Surroundings.Knows

variable {s t : Session} {found : Option Symbol} {depth : Nat}

theorem registered (h : s.Knows x found depth) {symbol : Symbol} (hne : symbol.name ≠ x) :
    (s.registered symbol).Knows x found depth := by
  have hinsert : ∀ scope : Scope, (scope.insert symbol.name symbol)[x]? = scope[x]? := by
    intro scope
    simp [Std.TreeMap.getElem?_insert, hne]
  have hdepth : (s.symbols.register symbol).depth = depth :=
    (s.symbols.depth_register symbol).trans h.depth_eq
  unfold Session.registered SymbolTable.register at *
  split at *
  · exact ⟨(hinsert _).trans h.unitScope, h.inner, hdepth, h.params⟩
  · next first rest hinner =>
    refine ⟨h.unitScope, fun scope hscope => ?_, hdepth, h.params⟩
    have hold := h.inner
    rw [hinner] at hold
    rcases List.mem_cons.mp hscope with rfl | hscope
    · exact (hinsert first).trans (hold first List.mem_cons_self)
    · exact hold scope (List.mem_cons_of_mem _ hscope)

theorem recorded (h : s.Knows x found depth) (id : DeclId) {d : Declaration} (hd : d.Spares x) :
    (s.recorded id d).Knows x found depth where
  unitScope := h.unitScope
  inner := h.inner
  depth_eq := h.depth_eq
  params := fun i k hk => by
    rcases Session.recorded_callable_cases hk with rfl | hold
    · exact hd
    · exact h.params i k hold

theorem changed (h : s.Knows x found depth) {change : Change} (hchange : change.Spares x) :
    (s.changed change).Knows x found depth := by
  cases change with
  | counts n => exact ⟨h.unitScope, h.inner, h.depth_eq, h.params⟩
  | names symbol => exact h.registered hchange
  | records id d => exact h.recorded id hchange

theorem changes {P : Change → Prop} (h : s.Knows x found depth) (hchanges : Changes P s t)
    (hP : ∀ change, P change → change.Spares x) : t.Knows x found depth :=
  hchanges.keeps (I := fun s => s.Knows x found depth) (fun _ _ hchange hs => hs.changed (hP _ hchange)) h

theorem opened (h : s.Knows x found depth) (scope : LexicalScope) (slots : List String) :
    (s.opened scope slots).Knows x found (depth + 1) where
  unitScope := h.unitScope
  inner := fun inner hinner => by
    rcases List.mem_cons.mp hinner with rfl | hinner
    · exact Std.TreeMap.getElem?_emptyc
    · exact h.inner inner hinner
  depth_eq := congrArg (· + 1) h.depth_eq
  params := h.params

theorem closed (s : Session) (h : t.Knows x found (depth + 1)) : (s.closed t).Knows x found depth where
  unitScope := h.unitScope
  inner := fun inner hinner => h.inner inner (List.mem_of_mem_tail hinner)
  depth_eq := by
    have hdepth : t.symbols.inner.length = depth + 1 := h.depth_eq
    show t.symbols.inner.tail.length = depth
    rw [List.length_tail, hdepth]
    rfl
  params := h.params

theorem stored (h : s.Knows x found depth) (name : String) (body : List Command) (line : Nat) :
    (s.stored name body line).Knows x found depth := by
  obtain ⟨ws, hws⟩ := s.stored_eq_noting name body line
  rw [hws]
  exact ⟨h.unitScope, h.inner, h.depth_eq, h.params⟩

theorem withVariable (h : s.Knows x found depth) {name : String} (hne : name ≠ x) :
    (s.withVariable name).Knows x found depth := by
  have hdeclaring : ((s.counted 1).declaring [s.variableSlot name]).Knows x found depth :=
    ⟨h.unitScope, h.inner, h.depth_eq, h.params⟩
  exact hdeclaring.registered hne

/-- Outside of all bodies a variable is declared in the scope of the unit. -/
theorem withVariable_self (h : s.Knows x none 0) :
    (s.withVariable x).Knows x (some ⟨x, s.variableSlot x, .variableName, none⟩) 0 := by
  have hinner : s.symbols.inner = [] := List.eq_nil_of_length_eq_zero h.depth_eq
  have hsymbols : (s.withVariable x).symbols =
      ⟨s.symbols.unitScope.insert x ⟨x, s.variableSlot x, .variableName, none⟩, []⟩ := by
    show s.symbols.register ⟨x, s.variableSlot x, .variableName, none⟩ = _
    rw [SymbolTable.register, hinner]
  refine ⟨?_, ?_, ?_, h.params⟩
  · rw [hsymbols]
    exact Std.TreeMap.getElem?_insert_self
  · rw [hsymbols]
    exact fun scope hscope => absurd hscope List.not_mem_nil
  · rw [hsymbols]
    rfl

end Surroundings.Knows

/-! ## Declaring -/

theorem Callable.Serves.spares {k : Callable} {f : FunctionDecl} (h : k.Serves f) (hbody : f.body ≠ none)
    (hf : ¬f.Binds x) : (Declaration.callable k).Spares x := by
  intro p hp hname
  obtain ⟨body, hbody⟩ := Option.ne_none_iff_exists'.mp hbody
  have hin : some x ∈ f.params.map Param.name? := by
    rw [← h.names_eq, ← hname]
    exact List.mem_map_of_mem hp
  obtain ⟨param, hparam, heq⟩ := List.mem_map.mp hin
  exact hf ((FunctionDecl.binds_of_body hbody).mpr (.inl ⟨param, hparam, heq⟩))

theorem FunctionChange.spares {q : Surroundings} {f : FunctionDecl} {change : Change}
    (h : FunctionChange q f change) (hbody : f.body ≠ none) (hf : ¬(Stmt.function f).Binds x) :
    change.Spares x := by
  cases h with
  | counts n => trivial
  | symbol hname =>
    rintro rfl
    exact hf (.inl ⟨hbody, hname⟩)
  | record hk => exact hk.spares hbody fun hbinds => hf (.inr hbinds)

theorem ClassChange.spares {q : Surroundings} {c : ClassDecl} {info : ClassInfo} {change : Change}
    (h : ClassChange q c info change) (hown : (c.isDeclared || c.isAbstract) = false)
    (hinfo : info.Describes c) (hc : ¬c.Binds x) : change.Spares x := by
  rw [c.binds_iff] at hc
  -- a member is known under the name of the class and its own
  have hkey : ∀ {m : Member} {key : String}, m ∈ c.members → m.key? = some key →
      memberKey info.name key ≠ x := by
    rintro m key hm hkey rfl
    exact hc ⟨hown, .inr (.inl ⟨m, hm, info.name, key, hinfo.name, hkey, rfl⟩)⟩
  have hmember : ∀ {m : Member}, m ∈ c.members → ¬m.Binds x :=
    fun hm hbinds => hc ⟨hown, .inr (.inr (membersBind_iff.mpr ⟨_, hm, hbinds⟩))⟩
  cases h with
  | counts n => trivial
  | symbol =>
    intro heq
    have hname : info.name = x := heq
    exact hc ⟨hown, .inl (hname ▸ hinfo.name)⟩
  | member hm h =>
    cases h with
    | counts m n => trivial
    | method isStatic hname _ => exact hkey hm hname
    | methodRecord isStatic hbody hk => exact hk.spares hbody (hmember hm)
    | constructorRecord hbody hk => exact hk.spares hbody (hmember hm)
    | property p _ => exact hkey hm rfl
  | record => trivial

/-- An import gives a meaning to the names that it binds. -/
theorem importSymbols_bound {i : Import} {symbol : Symbol} (h : symbol ∈ importSymbols i) :
    symbol.name ∈ i.bound := by
  rcases List.mem_append.mp h with h | h
  · refine List.mem_append_left _ ?_
    rcases List.mem_append.mp h with h | h
    · obtain ⟨name, hname, rfl⟩ := Option.map_eq_some_iff.mp (Option.mem_toList.mp h)
      exact List.mem_append_left _ (Option.mem_toList.mpr hname)
    · obtain ⟨name, hname, rfl⟩ := Option.map_eq_some_iff.mp (Option.mem_toList.mp h)
      exact List.mem_append_right _ (Option.mem_toList.mpr hname)
  · obtain ⟨n, hn, rfl⟩ := List.mem_map.mp h
    exact List.mem_append_right _ (List.mem_map_of_mem hn)

/-- Variables are not declared beforehand. -/
theorem UnitChange.spares {q : Surroundings} {sts : List Stmt} {change : Change}
    (h : UnitChange q sts change)
    (hsts : ∀ st ∈ sts, st.Binds x → ∃ line ds, st = .bindings line ds) : change.Spares x := by
  cases h with
  | @imports line i symbol hin hsymbol =>
    rintro rfl
    obtain ⟨_, _, heq⟩ := hsts _ hin (importSymbols_bound hsymbol)
    cases heq
  | function hin hbody h =>
    refine h.spares hbody fun hbinds => ?_
    obtain ⟨_, _, heq⟩ := hsts _ hin hbinds
    cases heq
  | classDef hin hown hinfo h =>
    refine h.spares hown hinfo fun hbinds => ?_
    obtain ⟨_, _, heq⟩ := hsts _ hin hbinds
    cases heq

/-! ## Lowering -/

/-- **A name keeps its meaning while nothing binds it.** -/
theorem Runs.knows {task : Task} {s t : Session} {log : List Event} {out : Emitted Flow}
    (h : Runs task s log out t) {found : Option Symbol} {depth : Nat} (hbinds : ¬task.Binds x)
    (hs : s.Knows x found depth) :
    t.Knows x found depth ∧ ∀ q e, .lowers q e ∈ log → ∃ depth, q.Knows x found depth := by
  induction h generalizing depth with
  | idle h =>
    obtain ⟨ws, rfl⟩ := h.eq_noting
    exact ⟨hs, fun q e hin => absurd hin List.not_mem_nil⟩
  | seq hsplit _ _ ihfirst ihrest =>
    obtain ⟨hfirst, hrest⟩ := Task.split_binds (x := x) hsplit
    obtain ⟨ht, hlog⟩ := ihfirst (fun hin => hbinds (hfirst hin)) hs
    obtain ⟨hu, hlog'⟩ := ihrest (fun hin => hbinds (hrest hin)) ht
    refine ⟨hu, fun q e hin => ?_⟩
    rcases List.mem_append.mp hin with hin | hin
    · exact hlog q e hin
    · exact hlog' q e hin
  | @returned st s t log commands rest _ ih =>
    obtain ⟨ws, hws⟩ := t.skipping_eq_noting rest
    rw [hws]
    exact ih (fun hin => hbinds (.inl hin)) hs
  | inside hinside _ ih => exact ih (fun hin => hbinds (Task.inside_binds hinside hin)) hs
  | @declares d name hname _ s =>
    refine ⟨hs.withVariable ?_, fun q e hin => absurd hin List.not_mem_nil⟩
    rintro rfl
    exact hbinds hname
  | @evaluates task s t use e flow commands fx htask he =>
    have ht : t.Knows x found depth := by
      rcases htask.prepared with ⟨ws, rfl⟩ | ⟨d, name, rfl, hname, rfl⟩
      · exact hs
      · refine hs.withVariable ?_
        rintro rfl
        exact hbinds hname
    refine ⟨⟨ht.unitScope, ht.inner, ht.depth_eq, ht.params⟩, fun q e' hin => ?_⟩
    cases List.mem_singleton.mp hin
    exact ⟨depth, ht⟩
  | @function f body s t u log out hbody hdeclared _ ih =>
    have ht : t.Knows x found depth := by
      rcases hdeclared.changes rfl with rfl | ⟨hsome, hchanges⟩
      · exact hs
      · exact hs.changes hchanges fun _ hchange => hchange.spares hsome hbinds
    obtain ⟨ws, hws⟩ := t.warnedIf_eq_noting f.isAsync f.line "async function is lowered synchronously"
    rw [hws] at ih
    exact ih (fun hin => hbinds (.inr ((FunctionDecl.binds_of_body hbody).mpr (.inr hin)))) ht
  | @method info scope f isStatic body s t log out hbody _ ih =>
    obtain ⟨ws, hws⟩ := s.warnedIf_eq_noting f.isAsync f.line "async method is lowered synchronously"
    rw [hws] at ih
    exact ih (fun hin => hbinds ((FunctionDecl.binds_of_body hbody).mpr (.inr hin))) hs
  | @classDef c info s t u log out hown hdeclared _ _ ih =>
    have ht : t.Knows x found depth := by
      rcases hdeclared.changes rfl with rfl | ⟨-, info', hinfo', -, hchanges⟩
      · exact hs
      · exact hs.changes hchanges fun _ hchange => hchange.spares hown hinfo' hbinds
    exact ih (fun hin => hbinds ((c.binds_iff).mpr ⟨hown, .inr (.inr hin)⟩)) ht
  | @script task s t script log out hopens _ ih =>
    have hbody : ¬script.body.Binds x := by
      cases hopens with
      | callable _ line enclosing prologue body => exact hbinds
      | fields info scope ms line => exact id
    obtain ⟨ht, hlog⟩ := ih hbody (hs.opened script.scope script.slots)
    refine ⟨(Surroundings.Knows.closed s ht).stored _ _ _, fun q e hin => ?_⟩
    rcases List.mem_append.mp hin with hin | hin
    · obtain ⟨id, -, hevent⟩ := Option.map_eq_some_iff.mp (Option.mem_toList.mp hin)
      cases hevent
    · exact hlog q e hin
  | constructor hfound _ ih => exact ih (fun hin => hbinds (knownConstructor_binds hfound hin)) hs
  | defaulted scope line _ s => exact ⟨hs.stored _ _ _, fun q e hin => absurd hin List.not_mem_nil⟩

/-! ## Before and behind a declaration -/

namespace Lower

/-- A successful run of statements is one of the first, and of the others unless it returns. -/
theorem stmts_cons_ok {st : Stmt} {rest : List Stmt} {s t : Session} {out : Emitted Flow}
    (h : (stmts (st :: rest)).run s = (.ok out, t)) :
    ∃ a m, (stmt st).run s = (.ok a, m) ∧ match a.value with
      | .returned => out = a
      | .next => ∃ b, (stmts rest).run m = (.ok b, t) ∧ out = ⟨a.commands ++ b.commands, b.value⟩ := by
  rw [stmts] at h
  obtain ⟨⟨commands, flow⟩, m, hfirst, h₁⟩ := run_bind_ok h
  refine ⟨_, m, hfirst, ?_⟩
  cases flow with
  | returned =>
    cases rest with
    | nil => exact (ok_inj h₁).1.symm
    | cons next others =>
      obtain ⟨_, s₁, hwarn, h₂⟩ := run_bind_ok h₁
      exact (ok_inj h₂).1.symm
  | next =>
    obtain ⟨b, s₁, hrest, h₂⟩ := run_bind_ok h₁
    obtain ⟨rfl, rfl⟩ := ok_inj h₂
    exact ⟨b, hrest, rfl⟩

theorem run_stmts_next {st : Stmt} {rest : List Stmt} {s m t : Session} {commands : List Command}
    {b : Emitted Flow} (hfirst : (stmt st).run s = (.ok ⟨commands, .next⟩, m))
    (hrest : (stmts rest).run m = (.ok b, t)) :
    (stmts (st :: rest)).run s = (.ok ⟨commands ++ b.commands, b.value⟩, t) := by
  rw [stmts, run_bind, hfirst]
  dsimp only
  rw [run_bind, hrest]
  rfl

theorem run_stmts_returned {st : Stmt} {s m : Session} {commands : List Command}
    (hfirst : (stmt st).run s = (.ok ⟨commands, .returned⟩, m)) (rest : List Stmt) :
    ∃ t, (stmts (st :: rest)).run s = (.ok ⟨commands, .returned⟩, t) := by
  rw [stmts, run_bind, hfirst]
  cases rest with
  | nil => exact ⟨_, rfl⟩
  | cons next others => exact ⟨_, rfl⟩

theorem declarators_append_ok {ds es : List Declarator} {s t : Session} {commands : List Command}
    (h : (declarators (ds ++ es)).run s = (.ok commands, t)) :
    ∃ before m behind, (declarators ds).run s = (.ok before, m) ∧
      (declarators es).run m = (.ok behind, t) ∧
      declaratorsLog (ds ++ es) s = declaratorsLog ds s ++ declaratorsLog es m := by
  induction ds generalizing s commands with
  | nil => exact ⟨[], s, commands, rfl, h, rfl⟩
  | cons d rest ih =>
    rw [List.cons_append, declarators] at h
    obtain ⟨first, s₁, hfirst, h₁⟩ := run_bind_ok h
    obtain ⟨others, s₂, hrest, h₂⟩ := run_bind_ok h₁
    obtain ⟨rfl, rfl⟩ := ok_inj h₂
    obtain ⟨before, m, behind, hbefore, hbehind, hlog⟩ := ih hrest
    refine ⟨first ++ before, m, behind, ?_, hbehind, ?_⟩
    · rw [declarators, run_bind, hfirst]
      dsimp only
      rw [run_bind, hbefore]
      rfl
    · rw [List.cons_append, declaratorsLog, declaratorsLog, hfirst, hlog, List.append_assoc]

theorem run_bindings {line : Nat} {ds : List Declarator} {s t : Session} {commands : List Command}
    (h : (declarators ds).run s = (.ok commands, t)) :
    (stmt (.bindings line ds)).run s = (.ok ⟨commands, .next⟩, t) := by
  rw [stmt, run_bind, h]
  rfl

/-- **The log of statements is cut between two variables.**  The variables before stand at the end
of one list of statements, those behind at the beginning of another.  The second is reached unless
a statement before returns. -/
theorem stmts_around {pre post : List Stmt} {line : Nat} {ds es : List Declarator} {s t : Session}
    {out : Emitted Flow} (h : (stmts (pre ++ .bindings line (ds ++ es) :: post)).run s = (.ok out, t)) :
    ∃ a m, (stmts (pre ++ [.bindings line ds])).run s = (.ok a, m) ∧
      stmtsLog (pre ++ .bindings line (ds ++ es) :: post) s =
        stmtsLog (pre ++ [.bindings line ds]) s ++
          (if bodyReturns pre then [] else stmtsLog (.bindings line es :: post) m) ∧
      (bodyReturns pre = false → ∃ b, (stmts (.bindings line es :: post)).run m = (.ok b, t)) := by
  induction pre generalizing s out with
  | nil =>
    obtain ⟨a, m, hfirst, hrest⟩ := stmts_cons_ok h
    have hstmt := hfirst
    rw [stmt] at hstmt
    obtain ⟨commands, m', hds, hpure⟩ := run_bind_ok hstmt
    obtain ⟨rfl, rfl⟩ := ok_inj hpure
    obtain ⟨b, hpost, -⟩ := hrest
    obtain ⟨before, m₁, behind, hbefore, hbehind, hlog⟩ := declarators_append_ok hds
    refine ⟨_, m₁, run_stmts_next (run_bindings hbefore) rfl, ?_, fun _ => ?_⟩
    · show stmtsLog (.bindings line (ds ++ es) :: post) s =
        stmtsLog [.bindings line ds] s ++ stmtsLog (.bindings line es :: post) m₁
      rw [stmtsLog, stmtsLog, stmtsLog, hfirst, run_bindings hbefore, run_bindings hbehind]
      dsimp only
      rw [stmtLog, stmtLog, stmtLog, hlog, stmtsLog, List.append_nil, List.append_assoc]
    · exact ⟨_, run_stmts_next (run_bindings hbehind) hpost⟩
  | cons st rest ih =>
    obtain ⟨⟨commands, flow⟩, m, hfirst, hrest⟩ := stmts_cons_ok h
    have hflow := (stmt_runs st hfirst).returns_eq
    rw [List.cons_append, List.cons_append, stmtsLog, stmtsLog, hfirst]
    cases flow with
    | returned =>
      have hreturns : st.returns = true := by
        by_contra hno
        rw [Task.returns, if_neg hno] at hflow
        cases hflow
      obtain ⟨m', hm'⟩ := run_stmts_returned hfirst (rest ++ [.bindings line ds])
      refine ⟨_, m', hm', ?_, fun hno => ?_⟩
      · rw [bodyReturns, hreturns]
        exact (List.append_nil _).symm
      · rw [bodyReturns, hreturns] at hno
        cases hno
    | next =>
      have hreturns : st.returns = false := by
        by_contra hyes
        rw [Task.returns, if_pos (Bool.not_eq_false _ ▸ hyes)] at hflow
        cases hflow
      obtain ⟨b, hb, -⟩ := hrest
      obtain ⟨a, m', hm', hlog, hbehind⟩ := ih hb
      refine ⟨_, m', run_stmts_next hfirst hm', ?_, fun hno => ?_⟩
      · dsimp only
        rw [hlog, bodyReturns, hreturns, Bool.false_or, List.append_assoc]
      · rw [bodyReturns, hreturns] at hno
        exact hbehind hno

end Lower

/-- A declared variable is known by its slot, also in its own initializer. -/
theorem Runs.declared {d : Declarator} {s t : Session} {log : List Event} {out : Emitted Flow}
    (h : Runs (.declarator d) s log out t) (hd : d.binding = .identifier x) (hs : s.Knows x none 0) :
    s.variableSlot x ∈ t.allocator.preamble ∧
      t.Knows x (some ⟨x, s.variableSlot x, .variableName, none⟩) 0 ∧
      ∀ q e, .lowers q e ∈ log → q.LowersTo x (s.variableSlot x) := by
  have hself := hs.withVariable_self
  have hslot : s.variableSlot x ∈ (s.withVariable x).allocator.preamble :=
    List.mem_append_right _ List.mem_cons_self
  cases h with
  | idle h => cases h
  | seq hsplit _ _ => cases hsplit
  | inside hinside _ => cases hinside
  | declares hname _ =>
    obtain rfl := Binding.identifier.inj (hname.symm.trans hd)
    exact ⟨hslot, hself, fun q e hin => absurd hin List.not_mem_nil⟩
  | evaluates htask he =>
    cases htask with
    | initializer hname _ =>
      obtain rfl := Binding.identifier.inj (hname.symm.trans hd)
      refine ⟨?_, ⟨hself.unitScope, hself.inner, hself.depth_eq, hself.params⟩, fun q e hin => ?_⟩
      · exact (Grows.withEffects _ he.extends).preamble.subset hslot
      · cases List.mem_singleton.mp hin
        exact hself.lowersTo_slot
  | script hopens _ => cases hopens

/-- Behind its declaration a variable is known by its slot. -/
theorem Runs.behind {line : Nat} {d : Declarator} {es : List Declarator} {post : List Stmt}
    {s t : Session} {log : List Event} {out : Emitted Flow}
    (h : Runs (.stmts (.bindings line (d :: es) :: post)) s log out t)
    (hd : d.binding = .identifier x) (hes : ¬(Task.declarators es).Binds x) (hpost : ¬stmtsBind x post)
    (hs : s.Knows x none 0) :
    s.variableSlot x ∈ t.allocator.preamble ∧
      ∀ q e, .lowers q e ∈ log → q.LowersTo x (s.variableSlot x) := by
  obtain ⟨log₁, log₂, _, _, m, rfl, hfirst, hrest⟩ := h.parts rfl rfl
  obtain ⟨log₃, log₄, _, _, m', rfl, hvariable, hothers⟩ := (hfirst.within rfl).parts rfl rfl
  obtain ⟨hslot, hm', hlog₃⟩ := hvariable.declared hd hs
  obtain ⟨hm, hlog₄⟩ := hothers.knows hes hm'
  obtain ⟨-, hlog₂⟩ := hrest.knows hpost hm
  refine ⟨?_, fun q e hin => ?_⟩
  · exact (hothers.grows.trans hrest.grows).preamble.subset hslot
  · rcases List.mem_append.mp hin with hin | hin
    · rcases List.mem_append.mp hin with hin | hin
      · exact hlog₃ q e hin
      · obtain ⟨depth, hq⟩ := hlog₄ q e hin
        exact hq.lowersTo_slot
    · obtain ⟨depth, hq⟩ := hlog₂ q e hin
      exact hq.lowersTo_slot

/-! ## Units -/

namespace Session

/-- The session in which the statements at the beginning of a unit end. -/
def reached (s : Session) (u : CompilationUnit) (front : List Stmt) : Session :=
  ((Lower.stmts front).run (s.declared u)).2

theorem begin_knows (s : Session) (u : CompilationUnit) (x : String) : (s.begin u).Knows x none 0 where
  unitScope := Std.TreeMap.getElem?_emptyc
  inner := fun scope hscope => absurd hscope List.not_mem_nil
  depth_eq := rfl
  params := fun id k hk => by
    rw [DeclTable.callable?_none (s.begin_free u id)] at hk
    cases hk

/-- **A variable at the top of a unit has one slot.**  The name `x` is bound by one declarator there
and by nothing else in the unit, which compiles.  Everything that is lowered before the declarator
takes `x` for itself.  Unless a statement before returns, the declarator is reached, the slot minted
for it is declared by the primary script, and everything that is lowered from there on, its own
initializer first, takes `x` for this slot: at the top and in any body. -/
theorem variable_slot {s : Session} {u : CompilationUnit} {c : Compilation} {x : String}
    {pre post : List Stmt} {line : Nat} {ds es : List Declarator} {d : Declarator}
    (hunit : u.statements = pre ++ .bindings line (ds ++ d :: es) :: post)
    (hd : d.binding = .identifier x) (hone : ¬stmtsBind x (pre ++ .bindings line (ds ++ es) :: post))
    (hcompile : (s.compile u).1 = .ok c) :
    s.log u = Lower.stmtsLog (pre ++ [.bindings line ds]) (s.declared u) ++
        (if bodyReturns pre then [] else
          Lower.stmtsLog (.bindings line (d :: es) :: post) (s.reached u (pre ++ [.bindings line ds]))) ∧
    (∀ q e, .lowers q e ∈ Lower.stmtsLog (pre ++ [.bindings line ds]) (s.declared u) →
      q.LowersTo x x) ∧
    (bodyReturns pre = false →
      (∃ script, c.scripts[u.context]? = some script ∧
        (s.reached u (pre ++ [.bindings line ds])).variableSlot x ∈ declaredBy script) ∧
      ∀ q e, .lowers q e ∈ Lower.stmtsLog (.bindings line (d :: es) :: post)
          (s.reached u (pre ++ [.bindings line ds])) →
        q.LowersTo x ((s.reached u (pre ++ [.bindings line ds])).variableSlot x)) := by
  obtain ⟨out, t, hdeclared, hrun, rfl, -⟩ := compile_run hcompile
  have hlog : s.log u = Lower.stmtsLog (pre ++ .bindings line (ds ++ d :: es) :: post) (s.declared u) := by
    rw [log, hunit]
  rw [hunit] at hrun
  obtain ⟨a, m, hfront, hcut, hback⟩ := Lower.stmts_around hrun
  have hm : s.reached u (pre ++ [.bindings line ds]) = m := by rw [reached, hfront]
  -- what else binds the name in a part of the unit binds it beside the declarator
  have hothers : ∀ st ∈ pre ++ .bindings line (ds ++ es) :: post, ¬st.Binds x :=
    fun st hst hbinds => hone (stmtsBind_iff.mpr ⟨st, hst, hbinds⟩)
  have hrest : ∀ e ∈ ds ++ es, e.binding ≠ .identifier x := fun e he hbinding =>
    hothers _ (List.mem_append_right _ List.mem_cons_self) ⟨e, he, hbinding⟩
  have hpost : ¬stmtsBind x post := by
    intro hbinds
    obtain ⟨st, hst, hbinds⟩ := stmtsBind_iff.mp hbinds
    exact hothers st (List.mem_append_right _ (List.mem_cons_of_mem _ hst)) hbinds
  have hfrontBinds : ¬stmtsBind x (pre ++ [.bindings line ds]) := by
    intro hbinds
    obtain ⟨st, hst, hbinds⟩ := stmtsBind_iff.mp hbinds
    rcases List.mem_append.mp hst with hst | hst
    · exact hothers st (List.mem_append_left _ hst) hbinds
    · obtain rfl := List.mem_singleton.mp hst
      obtain ⟨e, he, hbinding⟩ := hbinds
      exact hrest e (List.mem_append_left _ he) hbinding
  have hstart : (s.declared u).Knows x none 0 := by
    refine (begin_knows s u x).changes (hdeclared.changes rfl) fun _ hchange => hchange.spares ?_
    intro st hst hbinds
    rw [hunit] at hst
    rcases List.mem_append.mp hst with hst | hst
    · exact absurd hbinds (hothers st (List.mem_append_left _ hst))
    · rcases List.mem_cons.mp hst with rfl | hst
      · exact ⟨_, _, rfl⟩
      · exact absurd hbinds (hothers st (List.mem_append_right _ (List.mem_cons_of_mem _ hst)))
  obtain ⟨hmKnows, hbefore⟩ := (Lower.stmts_runs _ hfront).knows hfrontBinds hstart
  rw [hm]
  refine ⟨hlog.trans hcut, fun q e hin => ?_, fun hno => ?_⟩
  · obtain ⟨depth, hq⟩ := hbefore q e hin
    exact hq.lowersTo_self
  · obtain ⟨b, hb⟩ := hback hno
    have hes : ¬(Task.declarators es).Binds x := fun ⟨e, he, hbinding⟩ =>
      hrest e (List.mem_append_right _ he) hbinding
    obtain ⟨hslot, hbehind⟩ := (Lower.stmts_runs _ hb).behind hd hes hpost hmKnows
    refine ⟨⟨_, t.withPrimary_script u.context out.commands, ?_⟩, hbehind⟩
    rw [declaredBy_append, declaredBy_declarations]
    exact List.mem_append_left _ hslot

/-! A variable in the middle of a unit. -/

/-- `x = 1`, or another number. -/
def setX (n : Int) : Stmt :=
  .expression 0 (.binary ⟨0, none⟩ (.identifier ⟨0, none⟩ "x") .assign (.number ⟨0, none⟩ (.ofInt n)))

/-- `function f() { x = 1 } let y = 2, x = y; function g() { x = 3 } class A { p = x; m() { x = 4 } }` -/
def middleUnit : CompilationUnit where
  fileName := "main.ts"
  context := "main"
  statements := [
    .function ⟨0, some "f", [], some [setX 1], false, 0⟩,
    .bindings 0 [⟨.identifier "y", some (.number ⟨0, none⟩ (.ofInt 2)), 0⟩,
      ⟨.identifier "x", some (.identifier ⟨0, none⟩ "y"), 0⟩],
    .function ⟨1, some "g", [], some [setX 3], false, 0⟩,
    .classDef ⟨3, some "A", none, false, false, [
      .property ⟨"p", some (.identifier ⟨0, none⟩ "x"), false, 0⟩,
      .method ⟨2, some "m", [], some [setX 4], false, 0⟩ false], 0⟩]
  declCount := 4

theorem variable_slot_middle :
    ∃ c front back, (compile {} middleUnit).1 = .ok c ∧ log {} middleUnit = front ++ back ∧
      front.length = 3 ∧ back.length = 6 ∧ (∀ q e, .lowers q e ∈ front → q.LowersTo "x" "x") ∧
      (∃ script, c.scripts["main"]? = some script ∧ "x_3" ∈ declaredBy script) ∧
      ∀ q e, .lowers q e ∈ back → q.LowersTo "x" "x_3" := by
  obtain ⟨c, hc⟩ : ∃ c, (compile {} middleUnit).1 = .ok c := exists_compilation (by decide +kernel)
  have hone : ¬stmtsBind "x" ([.function ⟨0, some "f", [], some [setX 1], false, 0⟩] ++
      .bindings 0 ([⟨.identifier "y", some (.number ⟨0, none⟩ (.ofInt 2)), 0⟩] ++ []) ::
      middleUnit.statements.drop 2) := by
    simp [middleUnit, setX, stmtsBind, Stmt.Binds, FunctionDecl.Binds, ClassDecl.Binds, membersBind,
      Member.Binds, GoesBy, Member.key?, memberKey]
  obtain ⟨hlog, hfront, hback⟩ := variable_slot (u := middleUnit) rfl rfl hone hc
  obtain ⟨hscript, hback⟩ := hback (by decide)
  exact ⟨c, _, _, hc, hlog, by decide +kernel, by decide +kernel, hfront, hscript, hback⟩

/-! Units in which a variable is missed. -/

/-- The document of `name = value`. -/
def assignNode (name value : String) : Json.Value :=
  .object [("kind", .string "ExpressionStatement"), ("expression", .object [
    ("kind", .string "BinaryExpression"), ("left", namedNode "Identifier" name []),
    ("operator", .string "="),
    ("right", .object [("kind", .string "NumericLiteral"), ("value", .string value)])])]

/-- The document of `let name = value`. -/
def letNode (name value : String) : Json.Value :=
  .object [("kind", .string "VariableStatement"), ("declarations", .array [
    namedNode "VariableDeclaration" name
      [("initializer", .object [("kind", .string "NumericLiteral"), ("value", .string value)])]])]

/-- `function f() { x = 1 } let x = 0` -/
def useBeforeDocument : Json.Value :=
  .object [("statements", .array [
    namedNode "FunctionDeclaration" "f" [("body", .array [assignNode "x" "1"])], letNode "x" "0"])]

/-- `let TS_2 = 0; function f() { function () {} TS_2 = 1 }` -/
def takenNameDocument : Json.Value :=
  .object [("statements", .array [letNode "TS_2" "0",
    namedNode "FunctionDeclaration" "f" [("body", .array [
      .object [("kind", .string "FunctionDeclaration"), ("body", .array [])], assignNode "TS_2" "1"])]])]

/-- The scripts of `f` and of the unit, if the document compiles. -/
def scriptsOf (document : Json.Value) : Option (List Command) × Option (List Command) :=
  match Document.load document "main.ts" with
  | .error _ => (none, none)
  | .ok u =>
    match (compile {} u).1 with
    | .error _ => (none, none)
    | .ok c => (c.scripts["f"]?, c.scripts["main"]?)

/-- **A use may miss the variable.**  A function that stands before the one binding of `x` writes to
`x` itself, while the variable lives in another register; and behind the declaration a function
without a name may take the name of the variable for its own. -/
theorem variable_missed :
    (∃ u d, Document.load useBeforeDocument "main.ts" = .ok u ∧
      u.statements = [.function ⟨0, some "f", [], some [setX 1], false, 0⟩, .bindings 0 [d]] ∧
      d.binding = .identifier "x" ∧
      ¬stmtsBind "x" [.function ⟨0, some "f", [], some [setX 1], false, 0⟩, .bindings 0 []]) ∧
    scriptsOf useBeforeDocument =
      (some [.declare "register1", .set (some "main") "register1" "1",
          .operation (some "main") "x" .assign "register1"],
        some [.declare "x_1", .summon "main", .set (some "main") "x_1" "0", .kill "main"]) ∧
    scriptsOf takenNameDocument =
      (some [.declare "register1", .set (some "main") "register1" "1",
          .operation (some "main") "main/TS_2" .assign "register1"],
        some [.declare "TS_2_1", .summon "main", .set (some "main") "TS_2_1" "0", .kill "main"]) := by
  refine ⟨⟨⟨"main.ts", "main", _, 1⟩, _, rfl, rfl, rfl, ?_⟩, by decide +kernel, by decide +kernel⟩
  simp [setX, stmtsBind, Stmt.Binds, FunctionDecl.Binds, GoesBy]

end Session

end FrameScript
