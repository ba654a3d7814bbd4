/-
  Two runs side by side.

  Two sessions whose counters are apart mint different names, and all else that they do to one unit is
  the same.  This file sets the two runs beside each other, up to what names stand for:

  1. `Twin S V m n` says of two actions that from states related by `S` they fail with one error or
     end in states related by `S` again, with results related by `V`.  It is closed under everything
     that actions are built from, so a statement about two runs follows the program text.
  2. A `Shift` says how far the counters are apart, and `ShiftedPath`, `ShiftedName` and their
     companions say what a shift does to each kind of data.  A minted id may grow at its end, as it
     does when a script name is made from it; nothing ever looks at the number inside.
  3. In surroundings that differ by a shift every name means the same, up to the shift
     (`ShiftedSurroundings.memberSlot` and its companions).
-/
import FrameScript.Proofs.Sessions
import Mathlib.Data.List.Forall2

namespace FrameScript

open Source

/-! ## Two actions -/

section Actions

variable {ε σ α β γ κ : Type}

/-- Two results: the same error, or values that belong together. -/
inductive Alike (V : α → β → Prop) : Except ε α → Except ε β → Prop where
  | failed (e : ε) : Alike V (.error e) (.error e)
  | done {a : α} {b : β} (h : V a b) : Alike V (.ok a) (.ok b)

theorem Alike.of_eq {V : α → α → Prop} (hrefl : ∀ a, V a a) {x y : Except ε α} (h : x = y) :
    Alike V x y := by
  subst h
  cases x with
  | error e => exact .failed e
  | ok a => exact .done (hrefl a)

theorem Alike.map {V : α → β → Prop} {W : γ → κ → Prop} {x : Except ε α} {y : Except ε β}
    (h : Alike V x y) {f : α → γ} {g : β → κ} (hfg : ∀ a b, V a b → W (f a) (g b)) :
    Alike W (x.map f) (y.map g) := by
  cases h with
  | failed e => exact .failed e
  | done h => exact .done (hfg _ _ h)

/-- Two outcomes: the same error, or values and states that belong together. -/
inductive Agree (S : σ → σ → Prop) (V : α → β → Prop) : Except ε α × σ → Except ε β × σ → Prop where
  | failed (e : ε) (s t : σ) : Agree S V (.error e, s) (.error e, t)
  | done {a : α} {b : β} {s t : σ} (hv : V a b) (hs : S s t) : Agree S V (.ok a, s) (.ok b, t)

/-- From states that belong together the two actions come to outcomes that do. -/
def Twin (S : σ → σ → Prop) (V : α → β → Prop) (m : ExceptT ε (StateM σ) α)
    (n : ExceptT ε (StateM σ) β) : Prop :=
  ∀ s t, S s t → Agree S V (m.run s) (n.run t)

namespace Twin

variable {S : σ → σ → Prop} {V : α → β → Prop} {W : γ → κ → Prop}

theorem pure {a : α} {b : β} (h : V a b) :
    Twin S V (Pure.pure a : ExceptT ε (StateM σ) α) (Pure.pure b) :=
  fun _ _ hs => .done h hs

theorem bind {m : ExceptT ε (StateM σ) α} {n : ExceptT ε (StateM σ) β}
    {f : α → ExceptT ε (StateM σ) γ} {g : β → ExceptT ε (StateM σ) κ} (hm : Twin S V m n)
    (hf : ∀ a b, V a b → Twin S W (f a) (g b)) : Twin S W (m >>= f) (n >>= g) := by
  intro s t hs
  have hagree := hm s t hs
  rw [run_bind, run_bind]
  generalize m.run s = x at hagree ⊢
  generalize n.run t = y at hagree ⊢
  cases hagree with
  | failed e s t => exact .failed e s t
  | done hv hs => exact hf _ _ hv _ _ hs

theorem map {m : ExceptT ε (StateM σ) α} {n : ExceptT ε (StateM σ) β} {f : α → γ} {g : β → κ}
    (hm : Twin S V m n) (hf : ∀ a b, V a b → W (f a) (g b)) : Twin S W (f <$> m) (g <$> n) := by
  intro s t hs
  have hagree := hm s t hs
  rw [run_map, run_map]
  generalize m.run s = x at hagree ⊢
  generalize n.run t = y at hagree ⊢
  cases hagree with
  | failed e s t => exact .failed e s t
  | done hv hs => exact .done (hf _ _ hv) hs

theorem ofExcept {x : Except ε α} {y : Except ε β} (h : Alike V x y) :
    Twin S V (MonadExcept.ofExcept x : ExceptT ε (StateM σ) α) (MonadExcept.ofExcept y) := by
  intro s t hs
  cases h with
  | failed e => exact .failed e s t
  | done h => exact .done h hs

/-- Both actions read their states. -/
theorem get : Twin S S (MonadState.get : ExceptT ε (StateM σ) σ) MonadState.get :=
  fun _ _ hs => .done hs hs

/-- Both actions succeed. -/
theorem of_run {m : ExceptT ε (StateM σ) α} {n : ExceptT ε (StateM σ) β} {a : σ → α} {b : σ → β}
    {f g : σ → σ} (hm : ∀ s, m.run s = (.ok (a s), f s)) (hn : ∀ t, n.run t = (.ok (b t), g t))
    (hv : ∀ s t, S s t → V (a s) (b t)) (hs : ∀ s t, S s t → S (f s) (g t)) : Twin S V m n := by
  intro s t h
  rw [hm, hn]
  exact .done (hv s t h) (hs s t h)

end Twin

/-- Two options of which both or neither hold something. -/
theorem rel_cases {V : α → β → Prop} {x : Option α} {y : Option β} (h : Option.Rel V x y) :
    (x = none ∧ y = none) ∨ ∃ a b, x = some a ∧ y = some b ∧ V a b := by
  cases h with
  | none => exact .inl ⟨rfl, rfl⟩
  | some h => exact .inr ⟨_, _, rfl, rfl, h⟩

theorem rel_isSome {V : α → β → Prop} {x : Option α} {y : Option β} (h : Option.Rel V x y) :
    x.isSome = y.isSome := by
  cases h <;> rfl

theorem rel_map {V : α → β → Prop} {W : γ → κ → Prop} {x : Option α} {y : Option β}
    (h : Option.Rel V x y) {f : α → γ} {g : β → κ} (hfg : ∀ a b, V a b → W (f a) (g b)) :
    Option.Rel W (x.map f) (y.map g) := by
  cases h with
  | none => exact .none
  | some h => exact .some (hfg _ _ h)

theorem rel_bind {V : α → β → Prop} {W : γ → κ → Prop} {x : Option α} {y : Option β}
    (h : Option.Rel V x y) {f : α → Option γ} {g : β → Option κ}
    (hfg : ∀ a b, V a b → Option.Rel W (f a) (g b)) : Option.Rel W (x.bind f) (y.bind g) := by
  cases h with
  | none => exact .none
  | some h => exact hfg _ _ h

/-- A search that goes the same way in both lists. -/
theorem rel_findSome? {R : α → β → Prop} {W : γ → κ → Prop} {xs : List α} {ys : List β}
    (h : List.Forall₂ R xs ys) {f : α → Option γ} {g : β → Option κ}
    (hfg : ∀ a b, R a b → Option.Rel W (f a) (g b)) :
    Option.Rel W (xs.findSome? f) (ys.findSome? g) := by
  induction h with
  | nil => exact .none
  | @cons a b xs ys hab _ ih =>
    rw [List.findSome?_cons, List.findSome?_cons]
    obtain ⟨ha, hb⟩ | ⟨x, y, ha, hb, hxy⟩ := rel_cases (hfg a b hab)
    · rw [ha, hb]
      exact ih
    · rw [ha, hb]
      exact .some hxy

theorem rel_find? {R : α → β → Prop} {xs : List α} {ys : List β} (h : List.Forall₂ R xs ys)
    {p : α → Bool} {q : β → Bool} (hpq : ∀ a b, R a b → p a = q b) :
    Option.Rel R (xs.find? p) (ys.find? q) := by
  induction h with
  | nil => exact .none
  | @cons a b xs ys hab _ ih =>
    rw [List.find?_cons, List.find?_cons, hpq a b hab]
    cases q b with
    | true => exact .some hab
    | false => exact ih

end Actions

/-! ## What a shift does to data -/

/-- How far the counters of two sessions are apart. -/
structure Shift where
  ids : Int
  registers : Int

variable {δ : Shift}

/-- Two paths that are equal, or that start with ids minted from one stem, apart by the shift. -/
inductive ShiftedPath (δ : Shift) : String → String → Prop where
  | same (path : String) : ShiftedPath δ path path
  | minted (stem rest : String) {n m : Nat} (h : (m : Int) = n + δ.ids) :
      ShiftedPath δ (mintedId stem n ++ rest) (mintedId stem m ++ rest)

/-- Two names of registers or scripts: shifted paths, or anonymous registers apart by the shift. -/
inductive ShiftedName (δ : Shift) : String → String → Prop where
  | path {a b : String} (h : ShiftedPath δ a b) : ShiftedName δ a b
  | register {n m : Nat} (h : (m : Int) = n + δ.registers) :
      ShiftedName δ (mintedRegister n) (mintedRegister m)

/-- Two commands that differ in shifted names only. -/
inductive ShiftedCommand (δ : Shift) : Command → Command → Prop where
  | declare {a b : String} (h : ShiftedName δ a b) : ShiftedCommand δ (.declare a) (.declare b)
  | set (frame : Frame) {a b : String} (h : ShiftedName δ a b) (value : String) :
      ShiftedCommand δ (.set frame a value) (.set frame b value)
  | operation (frame : Frame) {a b : String} (hl : ShiftedName δ a b) (op : Op) {c d : String}
      (hr : ShiftedName δ c d) :
      ShiftedCommand δ (.operation frame a op c) (.operation frame b op d)
  | invoke {a b : String} (h : ShiftedName δ a b) : ShiftedCommand δ (.invoke a) (.invoke b)
  | summon (tag : String) : ShiftedCommand δ (.summon tag) (.summon tag)
  | kill (tag : String) : ShiftedCommand δ (.kill tag) (.kill tag)

/-- Two scripts that correspond command by command. -/
abbrev ShiftedCommands (δ : Shift) : List Command → List Command → Prop :=
  List.Forall₂ (ShiftedCommand δ)

inductive ShiftedOperand (δ : Shift) : Operand → Operand → Prop where
  | immediate (text : String) : ShiftedOperand δ (.immediate text) (.immediate text)
  | slot {a b : String} (h : ShiftedName δ a b) : ShiftedOperand δ (.slot a) (.slot b)

structure ShiftedEmitted (δ : Shift) {α β : Type} (V : α → β → Prop) (x : Emitted α) (y : Emitted β) :
    Prop where
  commands : ShiftedCommands δ x.commands y.commands
  value : V x.value y.value

structure ShiftedSymbol (δ : Shift) (a b : Symbol) : Prop where
  name : a.name = b.name
  path : ShiftedPath δ a.path b.path
  kind : a.kind = b.kind
  decl : a.decl = b.decl

def ShiftedScope (δ : Shift) (a b : Scope) : Prop :=
  ∀ name : String, Option.Rel (ShiftedSymbol δ) a[name]? b[name]?

structure ShiftedTable (δ : Shift) (a b : SymbolTable) : Prop where
  unitScope : ShiftedScope δ a.unitScope b.unitScope
  inner : List.Forall₂ (ShiftedScope δ) a.inner b.inner

structure ShiftedParam (δ : Shift) (a b : ParamSlot) : Prop where
  name : a.name = b.name
  slot : ShiftedPath δ a.slot b.slot

structure ShiftedCallable (δ : Shift) (a b : Callable) : Prop where
  script : a.script = b.script
  path : a.path = b.path
  params : List.Forall₂ (ShiftedParam δ) a.params b.params
  returnSlot : Option.Rel (ShiftedPath δ) a.returnSlot b.returnSlot

structure ShiftedField (δ : Shift) (a b : String × String) : Prop where
  name : a.1 = b.1
  slot : ShiftedPath δ a.2 b.2

structure ShiftedClass (δ : Shift) (a b : ClassInfo) : Prop where
  name : a.name = b.name
  path : a.path = b.path
  constructor : a.constructor = b.constructor
  fields : List.Forall₂ (ShiftedField δ) a.fields b.fields

inductive ShiftedDecl (δ : Shift) : Declaration → Declaration → Prop where
  | callable {a b : Callable} (h : ShiftedCallable δ a b) : ShiftedDecl δ (.callable a) (.callable b)
  | classInfo {a b : ClassInfo} (h : ShiftedClass δ a b) :
      ShiftedDecl δ (.classInfo a) (.classInfo b)

def ShiftedDecls (δ : Shift) (a b : DeclTable) : Prop :=
  ∀ id : DeclId, Option.Rel (ShiftedDecl δ) a[id]? b[id]?

/-- What two runs see: the same code around, under names that are shifted. -/
structure ShiftedSurroundings (δ : Shift) (p q : Surroundings) : Prop where
  symbols : ShiftedTable δ p.symbols q.symbols
  decls : ShiftedDecls δ p.decls q.decls
  scope : p.scope = q.scope
  unit : p.unit = q.unit

/-- Two messages about the same line.  Their texts may name shifted paths. -/
structure SamePlace (a b : Diagnostic) : Prop where
  severity : a.severity = b.severity
  tracer : a.tracer = b.tracer

/-- What two runs change: counters apart by the shift, shifted names to declare, warnings about the
same lines. -/
structure ShiftedEffects (δ : Shift) (fx gx : Effects) : Prop where
  ids : (gx.allocator.ids : Int) = fx.allocator.ids + δ.ids
  registers : (gx.allocator.registers : Int) = fx.allocator.registers + δ.registers
  preamble : List.Forall₂ (ShiftedName δ) fx.allocator.preamble gx.allocator.preamble
  warnings : List.Forall₂ SamePlace fx.warnings gx.warnings

structure ShiftedCallee (δ : Shift) (a b : Callee) : Prop where
  path : ShiftedName δ a.path b.path
  decl : a.decl = b.decl

/-! ## Names made from names -/

namespace ShiftedPath

/-- A path that is made longer stays shifted. -/
theorem append {a b : String} (h : ShiftedPath δ a b) (rest : String) :
    ShiftedPath δ (a ++ rest) (b ++ rest) := by
  cases h with
  | same path => exact .same _
  | minted stem rest' h =>
    rw [String.append_assoc, String.append_assoc]
    exact .minted stem _ h

theorem qualify {a b : String} (h : ShiftedPath δ a b) (name : String) :
    ShiftedPath δ (FrameScript.qualify a name) (FrameScript.qualify b name) :=
  (h.append "/").append name

theorem methodScript {a b : String} (h : ShiftedPath δ a b) (name : String) :
    ShiftedPath δ (FrameScript.methodScript a name) (FrameScript.methodScript b name) :=
  (h.append "_").append name

theorem initScript {a b : String} (h : ShiftedPath δ a b) :
    ShiftedPath δ (FrameScript.initScript a) (FrameScript.initScript b) :=
  h.append "_INIT"

end ShiftedPath

/-! ## Tables -/

namespace ShiftedTable

variable {a b : SymbolTable}

theorem lookup (h : ShiftedTable δ a b) (name : String) :
    Option.Rel (ShiftedSymbol δ) (a.lookup name) (b.lookup name) := by
  refine rel_findSome? (R := ShiftedScope δ) ?_ fun x y hxy => hxy name
  exact List.rel_append h.inner (.cons h.unitScope .nil)

theorem resolve (h : ShiftedTable δ a b) (name : String) :
    ShiftedPath δ (a.resolve name) (b.resolve name) := by
  unfold SymbolTable.resolve
  obtain ⟨ha, hb⟩ | ⟨x, y, ha, hb, hxy⟩ := rel_cases (h.lookup name)
  · rw [ha, hb]
    exact .same name
  · rw [ha, hb]
    exact hxy.path

theorem isClass (h : ShiftedTable δ a b) (name : String) : a.isClass name = b.isClass name := by
  unfold SymbolTable.isClass
  obtain ⟨ha, hb⟩ | ⟨x, y, ha, hb, hxy⟩ := rel_cases (h.lookup name)
  · rw [ha, hb]
  · rw [ha, hb]
    show decide (x.kind = _) = decide (y.kind = _)
    rw [hxy.kind]

/-- What is known under a name after both sides got a shifted meaning for it. -/
theorem insert {m n : Scope} (h : ShiftedScope δ m n) {x y : Symbol} (hxy : ShiftedSymbol δ x y) :
    ShiftedScope δ (m.insert x.name x) (n.insert y.name y) := by
  intro name
  rw [Std.TreeMap.getElem?_insert, Std.TreeMap.getElem?_insert, hxy.name]
  split
  · exact .some hxy
  · exact h name

theorem register (h : ShiftedTable δ a b) {x y : Symbol} (hxy : ShiftedSymbol δ x y) :
    ShiftedTable δ (a.register x) (b.register y) := by
  obtain ⟨unitScope, inner⟩ := a
  obtain ⟨unitScope', inner'⟩ := b
  cases h.inner with
  | nil => exact ⟨insert h.unitScope hxy, .nil⟩
  | cons hscope hrest => exact ⟨h.unitScope, .cons (insert hscope hxy) hrest⟩

theorem enter (h : ShiftedTable δ a b) : ShiftedTable δ a.enter b.enter := by
  refine ⟨h.unitScope, .cons (fun name => ?_) h.inner⟩
  rw [Std.TreeMap.getElem?_emptyc]
  exact .none

theorem exit (h : ShiftedTable δ a b) : ShiftedTable δ a.exit b.exit := by
  obtain ⟨unitScope, inner⟩ := a
  obtain ⟨unitScope', inner'⟩ := b
  cases h.inner with
  | nil => exact ⟨h.unitScope, .nil⟩
  | cons _ hrest => exact ⟨h.unitScope, hrest⟩

end ShiftedTable

theorem ShiftedCallable.paramSlot? {a b : Callable} (h : ShiftedCallable δ a b) (name : String) :
    Option.Rel (ShiftedPath δ) (a.paramSlot? name) (b.paramSlot? name) := by
  refine rel_map (rel_find? h.params fun x y hxy => ?_) fun x y hxy => hxy.slot
  rw [hxy.name]

theorem ShiftedClass.fieldSlot? {a b : ClassInfo} (h : ShiftedClass δ a b) (name : String) :
    Option.Rel (ShiftedPath δ) (a.fieldSlot? name) (b.fieldSlot? name) := by
  refine rel_map (rel_find? h.fields fun x y hxy => ?_) fun x y hxy => hxy.slot
  rw [hxy.name]

namespace ShiftedDecls

variable {a b : DeclTable}

theorem callable? (h : ShiftedDecls δ a b) (id : DeclId) :
    Option.Rel (ShiftedCallable δ) (a.callable? id) (b.callable? id) := by
  unfold DeclTable.callable?
  obtain ⟨ha, hb⟩ | ⟨x, y, ha, hb, hxy⟩ := rel_cases (h id)
  · rw [ha, hb]
    exact .none
  · rw [ha, hb]
    cases hxy with
    | callable hxy => exact .some hxy
    | classInfo _ => exact .none

theorem class? (h : ShiftedDecls δ a b) (id : DeclId) :
    Option.Rel (ShiftedClass δ) (a.class? id) (b.class? id) := by
  unfold DeclTable.class?
  obtain ⟨ha, hb⟩ | ⟨x, y, ha, hb, hxy⟩ := rel_cases (h id)
  · rw [ha, hb]
    exact .none
  · rw [ha, hb]
    cases hxy with
    | callable _ => exact .none
    | classInfo hxy => exact .some hxy

theorem contains (h : ShiftedDecls δ a b) (id : DeclId) : a.contains id = b.contains id := by
  rw [Std.TreeMap.contains_eq_isSome_getElem?, Std.TreeMap.contains_eq_isSome_getElem?]
  exact rel_isSome (h id)

theorem insert (h : ShiftedDecls δ a b) (id : DeclId) {x y : Declaration} (hxy : ShiftedDecl δ x y) :
    ShiftedDecls δ (a.insert id x) (b.insert id y) := by
  intro i
  rw [Std.TreeMap.getElem?_insert, Std.TreeMap.getElem?_insert]
  split
  · exact .some hxy
  · exact h i

end ShiftedDecls

/-! ## What names stand for -/

namespace ShiftedSurroundings

variable {p q : Surroundings} (h : ShiftedSurroundings δ p q)
include h

theorem frame : p.frame = q.frame := by rw [Surroundings.frame, h.unit, Surroundings.frame]

theorem tracer (line : Nat) : p.tracer line = q.tracer line := by
  rw [Surroundings.tracer, h.unit, Surroundings.tracer]

theorem error (line : Nat) (cause : Cause) : p.error line cause = q.error line cause := by
  rw [Surroundings.error, h.tracer, Surroundings.error]

theorem warning (line : Nat) (message message' : String) :
    SamePlace (p.warning line message) (q.warning line message') :=
  ⟨rfl, h.tracer line⟩

theorem qualify (script : String) : p.qualify script = q.qualify script := by
  rw [Surroundings.qualify, h.unit, Surroundings.qualify]

theorem callable? : Option.Rel (ShiftedCallable δ) p.callable? q.callable? := by
  unfold Surroundings.callable?
  rw [h.scope]
  cases q.scope.owner with
  | none => exact .none
  | some id => exact h.decls.callable? id

theorem paramSlot? (name : String) :
    Option.Rel (ShiftedPath δ) (p.paramSlot? name) (q.paramSlot? name) :=
  rel_bind h.callable? fun _ _ hk => hk.paramSlot? name

theorem identifierSlot (name : String) :
    ShiftedPath δ (p.identifierSlot name) (q.identifierSlot name) := by
  unfold Surroundings.identifierSlot
  obtain ⟨hp, hq⟩ | ⟨x, y, hp, hq, hxy⟩ := rel_cases (h.paramSlot? name)
  · rw [hp, hq]
    exact h.symbols.resolve name
  · rw [hp, hq]
    exact hxy

theorem enclosingClass (line : Nat) : p.enclosingClass line = q.enclosingClass line := by
  rw [Surroundings.enclosingClass, h.scope, h.error, Surroundings.enclosingClass]

theorem parentClass (line : Nat) : p.parentClass line = q.parentClass line := by
  rw [Surroundings.parentClass, h.scope, h.error, Surroundings.parentClass]

theorem memberOwner? (object : Expr) : p.memberOwner? object = q.memberOwner? object := by
  unfold Surroundings.memberOwner?
  split
  · rw [h.enclosingClass]
  · rw [h.symbols.isClass]
  · rfl

theorem namespace? (object : Expr) :
    Option.Rel (ShiftedPath δ) (p.namespace? object) (q.namespace? object) := by
  unfold Surroundings.namespace?
  split
  · next _ name _ =>
    obtain ⟨hp, hq⟩ | ⟨x, y, hp, hq, hxy⟩ := rel_cases (h.symbols.lookup name)
    · rw [hp, hq]
      exact .none
    · rw [hp, hq]
      dsimp only
      rw [hxy.kind]
      split
      · exact .some hxy.path
      · exact .none
  · exact .none

theorem ownedSlot (owner : String) (object : Expr) (name : String) :
    Alike (ShiftedPath δ) (p.ownedSlot owner object name) (q.ownedSlot owner object name) := by
  unfold Surroundings.ownedSlot
  obtain ⟨hp, hq⟩ | ⟨x, y, hp, hq, hxy⟩ := rel_cases (h.symbols.lookup (memberKey owner name))
  · rw [hp, hq, h.error]
    exact .failed _
  · rw [hp, hq]
    exact .done hxy.path

theorem memberSlot (object : Expr) (name : String) :
    Alike (ShiftedPath δ) (p.memberSlot object name) (q.memberSlot object name) := by
  unfold Surroundings.memberSlot
  rw [h.memberOwner?]
  cases q.memberOwner? object with
  | error e => exact .failed e
  | ok owner =>
    cases owner with
    | some owner => exact h.ownedSlot owner object name
    | none =>
      simp only [bind, Except.bind]
      obtain ⟨hp, hq⟩ | ⟨x, y, hp, hq, hxy⟩ := rel_cases (h.namespace? object)
      · rw [hp, hq]
        exact h.ownedSlot _ object name
      · rw [hp, hq]
        exact .done (hxy.qualify name)

theorem targetSlot (target : Expr) :
    Alike (ShiftedPath δ) (p.targetSlot target) (q.targetSlot target) := by
  unfold Surroundings.targetSlot
  split
  · exact .done (h.identifierSlot _)
  · exact h.memberSlot _ _
  · rw [h.enclosingClass, h.error]
    exact Alike.of_eq .same rfl
  · rw [h.error]
    exact .failed _

theorem functionCallee (name : String) :
    ShiftedCallee δ (p.functionCallee name) (q.functionCallee name) := by
  unfold Surroundings.functionCallee
  obtain ⟨hp, hq⟩ | ⟨x, y, hp, hq, hxy⟩ := rel_cases (h.paramSlot? name)
  · rw [hp, hq]
    dsimp only
    obtain ⟨hp, hq⟩ | ⟨x, y, hp, hq, hxy⟩ := rel_cases (h.symbols.lookup name)
    · rw [hp, hq]
      exact ⟨.path (.same name), rfl⟩
    · rw [hp, hq]
      exact ⟨.path hxy.path, hxy.decl⟩
  · rw [hp, hq]
    exact ⟨.path hxy, rfl⟩

theorem ownedCallee? (owner name : String) :
    Option.Rel (ShiftedCallee δ) (p.ownedCallee? owner name) (q.ownedCallee? owner name) := by
  unfold Surroundings.ownedCallee?
  obtain ⟨hp, hq⟩ | ⟨x, y, hp, hq, hxy⟩ := rel_cases (h.symbols.lookup (memberKey owner name))
  · rw [hp, hq]
    dsimp only
    obtain ⟨hp, hq⟩ | ⟨x, y, hp, hq, -⟩ := rel_cases (h.symbols.lookup owner)
    · rw [hp, hq]
      exact .none
    · rw [hp, hq]
      exact .some ⟨.path ((h.symbols.resolve owner).methodScript name), rfl⟩
  · rw [hp, hq]
    exact .some ⟨.path hxy.path, hxy.decl⟩

theorem methodCallee (object : Expr) (name : String) :
    Alike (ShiftedCallee δ) (p.methodCallee object name) (q.methodCallee object name) := by
  unfold Surroundings.methodCallee
  rw [h.memberOwner?]
  cases q.memberOwner? object with
  | error e => exact .failed e
  | ok owner =>
    have howned : Option.Rel (ShiftedCallee δ) (owner.bind (p.ownedCallee? · name))
        (owner.bind (q.ownedCallee? · name)) := by
      cases owner with
      | none => exact .none
      | some owner => exact h.ownedCallee? owner name
    simp only [bind, Except.bind]
    obtain ⟨hp, hq⟩ | ⟨x, y, hp, hq, hxy⟩ := rel_cases howned
    · rw [hp, hq]
      dsimp only
      obtain ⟨hp, hq⟩ | ⟨x, y, hp, hq, hxy⟩ := rel_cases (h.namespace? object)
      · rw [hp, hq]
        exact .done ⟨.path (h.symbols.resolve name), rfl⟩
      · rw [hp, hq]
        exact .done ⟨.path (hxy.qualify name), rfl⟩
    · rw [hp, hq]
      exact .done hxy

theorem constructorDecl? (className : String) :
    p.constructorDecl? className = q.constructorDecl? className := by
  unfold Surroundings.constructorDecl?
  obtain ⟨hp, hq⟩ | ⟨x, y, hp, hq, hxy⟩ := rel_cases (h.symbols.lookup className)
  · rw [hp, hq]
    rfl
  · rw [hp, hq, Option.bind_eq_bind, Option.bind_some, Option.bind_eq_bind, Option.bind_some, hxy.kind,
      hxy.decl]
    congr 1
    funext _
    cases y.decl with
    | none => rfl
    | some id =>
      show (p.decls.class? id).bind _ = (q.decls.class? id).bind _
      obtain ⟨hp, hq⟩ | ⟨x, y, hp, hq, hxy⟩ := rel_cases (h.decls.class? id)
      · rw [hp, hq]
      · rw [hp, hq]
        exact hxy.constructor

theorem constructorCallee (className : String) :
    ShiftedCallee δ (p.constructorCallee className) (q.constructorCallee className) :=
  ⟨.path (h.symbols.resolve className).initScript, h.constructorDecl? className⟩

end ShiftedSurroundings

end FrameScript
