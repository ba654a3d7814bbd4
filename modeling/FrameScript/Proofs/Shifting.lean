/-
  Recompilation only shifts numbers.

  A unit is compiled in two sessions whose counters are apart.  Every step of declaring and lowering
  takes two sessions that differ by a shift to two that differ by it again (`ShiftedSession`), so the
  whole runs do: scripts get the same names, warnings point at the same lines, and commands correspond
  one by one, with minted names moved by the shift.

  One thing stands in the way.  A function or class without a name is named after the counter, and its
  scripts with it, so the unit is asked to name all of them (`Source.stmtsNamed`).  The proofs follow
  the program text; the induction is on nested bodies.
-/
import FrameScript.Proofs.Logs
import FrameScript.Proofs.Parallel

namespace FrameScript

open Source

variable {δ : Shift}

/-! ## Units that name what they declare -/

mutual

/-- Every function and class in the statement, at any depth, has a name. -/
def Source.Stmt.isNamed : Stmt → Bool
  | .block _ body => stmtsNamed body
  | .function f => f.name.isSome && f.bodyNamed
  | .classDef c => c.isNamed
  | _ => true

def Source.stmtsNamed : List Stmt → Bool
  | [] => true
  | st :: rest => st.isNamed && stmtsNamed rest

def Source.FunctionDecl.bodyNamed : FunctionDecl → Bool
  | ⟨_, _, _, some body, _, _⟩ => stmtsNamed body
  | ⟨_, _, _, none, _, _⟩ => true

def Source.ClassDecl.isNamed : ClassDecl → Bool
  | ⟨_, name, _, _, _, members, _⟩ => name.isSome && membersNamed members

def Source.Member.bodyNamed : Member → Bool
  | .method f _ => f.bodyNamed
  | .constructor f => f.bodyNamed
  | .property _ | .other .. => true

def Source.membersNamed : List Member → Bool
  | [] => true
  | m :: rest => m.bodyNamed && membersNamed rest

end

/-! ## The steps, on two sessions -/

/-- Two sessions that differ by a shift. -/
structure ShiftedSession (δ : Shift) (s t : Session) : Prop extends
    ShiftedSurroundings δ s.toSurroundings t.toSurroundings,
    ShiftedEffects δ s.toEffects t.toEffects where
  scripts : ∀ name : String, Option.Rel (ShiftedCommands δ) s.scripts[name]? t.scripts[name]?

namespace ShiftedSession

variable {s t : Session}

theorem nextId (h : ShiftedSession δ s t) (stem : Option String) :
    ShiftedPath δ (s.nextId stem) (t.nextId stem) := by
  have hids := h.ids
  have hnext : ((t.allocator.ids + 1 : Nat) : Int) = (s.allocator.ids + 1 : Nat) + δ.ids := by
    push_cast
    omega
  have hpath := ShiftedPath.minted (stem.getD defaultStem) "" hnext
  rwa [String.append_empty, String.append_empty] at hpath

theorem counted (h : ShiftedSession δ s t) (n : Nat) : ShiftedSession δ (s.counted n) (t.counted n) where
  toShiftedSurroundings := h.toShiftedSurroundings
  ids := by
    have hids := h.ids
    show ((t.allocator.ids + n : Nat) : Int) = (s.allocator.ids + n : Nat) + δ.ids
    push_cast
    omega
  registers := h.registers
  preamble := h.preamble
  warnings := h.warnings
  scripts := h.scripts

theorem declaring (h : ShiftedSession δ s t) {xs ys : List String}
    (hxy : List.Forall₂ (ShiftedName δ) xs ys) :
    ShiftedSession δ (s.declaring xs) (t.declaring ys) :=
  { h with preamble := List.rel_append h.preamble hxy }

theorem registered (h : ShiftedSession δ s t) {x y : Symbol} (hxy : ShiftedSymbol δ x y) :
    ShiftedSession δ (s.registered x) (t.registered y) :=
  { h with symbols := h.symbols.register hxy }

theorem registeredAll (h : ShiftedSession δ s t) (symbols : List Symbol) :
    ShiftedSession δ (s.registeredAll symbols) (t.registeredAll symbols) := by
  induction symbols generalizing s t with
  | nil => exact h
  | cons x rest ih => exact ih (h.registered ⟨rfl, .same _, rfl, rfl⟩)

theorem recorded (h : ShiftedSession δ s t) (id : DeclId) {x y : Declaration}
    (hxy : ShiftedDecl δ x y) : ShiftedSession δ (s.recorded id x) (t.recorded id y) :=
  { h with decls := h.decls.insert id hxy }

theorem warned (h : ShiftedSession δ s t) (line : Nat) (message message' : String) :
    ShiftedSession δ (s.warned line message) (t.warned line message') :=
  { h with warnings := List.rel_append h.warnings (.cons (h.warning line message message') .nil) }

theorem withEffects (h : ShiftedSession δ s t) {fx gx : Effects} (hfx : ShiftedEffects δ fx gx) :
    ShiftedSession δ (s.withEffects fx) (t.withEffects gx) :=
  { h with toShiftedEffects := hfx }

theorem withPreamble (h : ShiftedSession δ s t) {xs ys : List String}
    (hxy : List.Forall₂ (ShiftedName δ) xs ys) :
    ShiftedSession δ { s with allocator := { s.allocator with preamble := xs } }
      { t with allocator := { t.allocator with preamble := ys } } :=
  { h with preamble := hxy }

/-- A script name is taken on both sides or on neither. -/
theorem stored (h : ShiftedSession δ s t) (name : String) {xs ys : List Command}
    (hxy : ShiftedCommands δ xs ys) (line : Nat) :
    ShiftedSession δ (s.stored name xs line) (t.stored name ys line) := by
  have hinsert : ShiftedSession δ { s with scripts := s.scripts.insert name xs }
      { t with scripts := t.scripts.insert name ys } := by
    refine { h with scripts := fun other => ?_ }
    show Option.Rel _ (s.scripts.insert name xs)[other]? (t.scripts.insert name ys)[other]?
    rw [Std.TreeMap.getElem?_insert, Std.TreeMap.getElem?_insert]
    split
    · exact .some hxy
    · exact h.scripts other
  unfold Session.stored
  dsimp only
  rw [rel_isSome (h.scripts name)]
  split
  · exact hinsert.warned line _ _
  · exact hinsert

theorem opened (h : ShiftedSession δ s t) (scope : LexicalScope) :
    ShiftedSession δ (s.opened scope []) (t.opened scope []) :=
  { h with preamble := .nil, scope := rfl, symbols := h.symbols.enter }

/-- The sessions around two scripts that ended in sessions apart by the shift. -/
theorem closed (h : ShiftedSession δ s t) {s' t' : Session} (h' : ShiftedSession δ s' t') :
    ShiftedSession δ (s.closed s') (t.closed t') :=
  { h' with preamble := h.preamble, scope := h.scope, symbols := h'.symbols.exit }

end ShiftedSession

namespace SessionM

theorem freshId_twin (stem : Option String) :
    Twin (ShiftedSession δ) (ShiftedPath δ) (freshId stem) (freshId stem) :=
  .of_run (run_freshId · stem) (run_freshId · stem) (fun _ _ h => h.nextId stem)
    fun _ _ h => h.counted 1

theorem declare_twin {a b : String} (hab : ShiftedName δ a b) :
    Twin (ShiftedSession δ) Eq (declare a) (declare b) :=
  .of_run (run_declare · a) (run_declare · b) (fun _ _ _ => rfl) fun _ _ h =>
    h.declaring (.cons hab .nil)

theorem register_twin {x y : Symbol} (hxy : ShiftedSymbol δ x y) :
    Twin (ShiftedSession δ) Eq (register x) (register y) :=
  .of_run (run_register · x) (run_register · y) (fun _ _ _ => rfl) fun _ _ h => h.registered hxy

theorem record_twin (id : DeclId) {x y : Declaration} (hxy : ShiftedDecl δ x y) :
    Twin (ShiftedSession δ) Eq (record id x) (record id y) :=
  .of_run (run_record · id x) (run_record · id y) (fun _ _ _ => rfl) fun _ _ h => h.recorded id hxy

theorem warn_twin (line : Nat) (message message' : String) :
    Twin (ShiftedSession δ) Eq (warn line message) (warn line message') :=
  .of_run (run_warn · line message) (run_warn · line message') (fun _ _ _ => rfl) fun _ _ h =>
    h.warned line message message'

theorem pushScript_twin (name : String) {xs ys : List Command} (hxy : ShiftedCommands δ xs ys)
    (line : Nat) :
    Twin (ShiftedSession δ) Eq (pushScript name xs line) (pushScript name ys line) :=
  .of_run (run_pushScript · name xs line) (run_pushScript · name ys line) (fun _ _ _ => rfl)
    fun _ _ h => h.stored name hxy line

theorem fail_twin {α β : Type} {V : α → β → Prop} (line : Nat) (cause : Cause) :
    Twin (ShiftedSession δ) V (fail line cause) (fail line cause) := by
  intro s t h
  rw [run_fail, run_fail, h.error]
  exact .failed _ _ _

theorem lift_twin {α β : Type} {V : α → β → Prop} {x : Surroundings → Lowering α}
    {y : Surroundings → Lowering β}
    (hxy : ∀ p q, ShiftedSurroundings δ p q → Twin (ShiftedEffects δ) V (x p) (y q)) :
    Twin (ShiftedSession δ) V (lift x) (lift y) := by
  intro s t h
  have hagree := hxy _ _ h.toShiftedSurroundings _ _ h.toShiftedEffects
  rw [run_lift, run_lift]
  generalize (x s.toSurroundings).run s.toEffects = a at hagree ⊢
  generalize (y t.toSurroundings).run t.toEffects = b at hagree ⊢
  cases hagree with
  | failed e fx gx => exact .failed e _ _
  | done hv hfx => exact .done hv (h.withEffects hfx)

end SessionM

/-- The same steps for the members of two lists that belong together. -/
theorem forM_twin {σ α β : Type} {S : σ → σ → Prop} {R : α → β → Prop} {ε : Type} {xs : List α}
    {ys : List β} (hxy : List.Forall₂ R xs ys) {f : α → ExceptT ε (StateM σ) Unit}
    {g : β → ExceptT ε (StateM σ) Unit} (hfg : ∀ a b, R a b → Twin S Eq (f a) (g b)) :
    Twin S Eq (xs.forM f) (ys.forM g) := by
  induction hxy with
  | nil => exact .pure rfl
  | @cons a b xs ys hab _ ih =>
    show Twin S Eq (f a >>= fun _ => xs.forM f) (g b >>= fun _ => ys.forM g)
    exact .bind (hfg a b hab) fun _ _ _ => ih

/-! ## Declaring -/

namespace Declare

open SessionM

theorem params_twin (ps : List Param) :
    Twin (ShiftedSession δ) (List.Forall₂ (ShiftedParam δ)) (params ps) (params ps) := by
  induction ps with
  | nil => exact .pure .nil
  | cons p rest ih =>
    have hrest : ∀ name, Twin (ShiftedSession δ) (List.Forall₂ (ShiftedParam δ))
        (do
          let slot ← freshId name
          return { name, slot } :: (← params rest))
        (do
          let slot ← freshId name
          return { name, slot } :: (← params rest)) := fun name =>
      .bind (freshId_twin name) fun _ _ hslot => .bind ih fun _ _ hothers =>
        .pure (.cons ⟨rfl, hslot⟩ hothers)
    rw [params]
    dsimp only
    split
    · exact .bind (V := Eq) (fail_twin _ _) fun _ _ _ => hrest _
    · exact hrest _

theorem callable_twin (script : String) (f : FunctionDecl) :
    Twin (ShiftedSession δ) (ShiftedCallable δ) (callable script f) (callable script f) := by
  unfold callable
  refine .bind .get fun s t hst => .bind (params_twin _) fun _ _ hparams => ?_
  have hpath := hst.qualify script
  dsimp only
  split
  · refine .bind (.map (freshId_twin _) fun _ _ hslot => Option.Rel.some hslot) fun _ _ hreturn => ?_
    exact .pure ⟨rfl, hpath, hparams, hreturn⟩
  · exact .bind (.pure .none) fun _ _ hreturn => .pure ⟨rfl, hpath, hparams, hreturn⟩

theorem imports_twin (i : Import) : Twin (ShiftedSession δ) Eq (imports i) (imports i) :=
  .of_run (run_imports i) (run_imports i) (fun _ _ _ => rfl) fun _ _ h => h.registeredAll _

/-- A name that is written is the same on both sides. -/
theorem nameOf_twin {name : Option String} (hname : name.isSome = true) :
    Twin (ShiftedSession δ) Eq (nameOf name) (nameOf name) := by
  obtain ⟨name, rfl⟩ := Option.isSome_iff_exists.mp hname
  exact .pure rfl

theorem function_twin {f : FunctionDecl} (hname : f.name.isSome = true) :
    Twin (ShiftedSession δ) Eq (function f) (function f) := by
  unfold function
  refine .bind .get fun s t hst => ?_
  rw [hst.decls.contains]
  split
  · exact .pure rfl
  · refine .bind (nameOf_twin hname) ?_
    rintro name _ rfl
    refine .bind (callable_twin name f) fun k l hk => ?_
    refine .bind (register_twin ⟨rfl, ?_, rfl, rfl⟩) fun _ _ _ => record_twin _ (.callable hk)
    rw [hk.path]
    exact .same _

theorem member_twin {x y : ClassInfo} (hxy : ShiftedClass δ x y) (m : Member) :
    Twin (ShiftedSession δ) (ShiftedClass δ) (member x m) (member y m) := by
  cases m with
  | method f isStatic =>
    unfold member
    dsimp only
    split
    · rw [hxy.name]
      refine .bind (callable_twin _ f) fun k l hk => .bind (register_twin ⟨rfl, ?_, rfl, rfl⟩) ?_
      · rw [hk.path]
        exact .same _
      · exact fun _ _ _ => .bind (record_twin _ (.callable hk)) fun _ _ _ => .pure hxy
    · exact .pure hxy
  | constructor f =>
    unfold member
    dsimp only
    split
    · rw [hxy.name]
      refine .bind (callable_twin _ f) fun k l hk => .bind (record_twin _ (.callable hk)) ?_
      exact fun _ _ _ => .pure ⟨rfl, hxy.path, rfl, hxy.fields⟩
    · exact .pure hxy
  | property p =>
    unfold member
    rw [hxy.name]
    refine .bind (freshId_twin _) fun _ _ hslot => ?_
    refine .bind (register_twin ⟨rfl, hslot, rfl, rfl⟩) fun _ _ _ => ?_
    exact .pure ⟨rfl, hxy.path, hxy.constructor, List.rel_append hxy.fields (.cons ⟨rfl, hslot⟩ .nil)⟩
  | other line kind => exact .pure hxy

theorem members_twin {x y : ClassInfo} (hxy : ShiftedClass δ x y) (ms : List Member) :
    Twin (ShiftedSession δ) (ShiftedClass δ) (ms.foldlM member x) (ms.foldlM member y) := by
  induction ms generalizing x y with
  | nil => exact .pure hxy
  | cons m rest ih =>
    rw [List.foldlM_cons, List.foldlM_cons]
    exact .bind (member_twin hxy m) fun _ _ hxy => ih hxy

theorem classDef_twin {c : ClassDecl} (hname : c.name.isSome = true) :
    Twin (ShiftedSession δ) Eq (classDef c) (classDef c) := by
  unfold classDef
  refine .bind .get fun s t hst => ?_
  rw [hst.decls.contains]
  split
  · exact .pure rfl
  · refine .bind (nameOf_twin hname) ?_
    rintro name _ rfl
    refine .bind .get fun s t hst => ?_
    rw [hst.qualify name]
    refine .bind (register_twin ⟨rfl, .same _, rfl, rfl⟩) fun _ _ _ => ?_
    refine .bind (members_twin ⟨rfl, rfl, rfl, .nil⟩ _) fun _ _ hxy => ?_
    exact record_twin _ (.classInfo hxy)

theorem stmt_twin {st : Stmt} (hnamed : st.isNamed = true) :
    Twin (ShiftedSession δ) Eq (stmt st) (stmt st) := by
  cases st with
  | imports line i => exact imports_twin i
  | function f => exact function_twin (Bool.and_eq_true_iff.mp hnamed).1
  | classDef c =>
    obtain ⟨id, name, parent, isDeclared, isAbstract, members, line⟩ := c
    exact classDef_twin (Bool.and_eq_true_iff.mp hnamed).1
  | _ => exact .pure rfl

theorem unit_twin {statements : List Stmt} (hnamed : stmtsNamed statements = true) :
    Twin (ShiftedSession δ) Eq (unit statements) (unit statements) := by
  induction statements with
  | nil => exact .pure rfl
  | cons st rest ih =>
    rw [stmtsNamed, Bool.and_eq_true_iff] at hnamed
    show Twin _ Eq (stmt st >>= fun _ => unit rest) (stmt st >>= fun _ => unit rest)
    exact .bind (stmt_twin hnamed.1) fun _ _ _ => ih hnamed.2

end Declare

/-! ## Lowering of statements -/

theorem declarations_shifted {xs ys : List String} (hxy : List.Forall₂ (ShiftedName δ) xs ys) :
    ShiftedCommands δ (declarations xs) (declarations ys) := by
  induction hxy with
  | nil => exact .nil
  | cons hab _ ih => exact .cons (.declare hab) ih

theorem bracket_shifted (frame : Frame) {xs ys : List Command} (hxy : ShiftedCommands δ xs ys) :
    ShiftedCommands δ (frame.bracket xs) (frame.bracket ys) := by
  cases frame with
  | none => exact List.rel_append (List.rel_append .nil hxy) .nil
  | some tag =>
    exact List.rel_append (List.rel_append (.cons (.summon tag) .nil) hxy) (.cons (.kill tag) .nil)

namespace Lower

open SessionM (freshId_twin declare_twin register_twin pushScript_twin lift_twin)

/-- An expression whose value is stored into a slot. -/
theorem stored_twin {p q : Surroundings} (h : ShiftedSurroundings δ p q) {a b : String}
    (hab : ShiftedPath δ a b) (e : Expr) :
    Twin (ShiftedEffects δ) (ShiftedCommands δ)
      (do
        let lowered ← value p e
        return lowered.commands ++ [assign p a lowered.value])
      (do
        let lowered ← value q e
        return lowered.commands ++ [assign q b lowered.value]) :=
  .bind (value_twin h e) fun _ _ hxy => .pure <|
    List.rel_append hxy.commands (.cons (assign_shifted h (.path hab) hxy.value) .nil)

theorem declarator_twin (d : Declarator) :
    Twin (ShiftedSession δ) (ShiftedCommands δ) (declarator d) (declarator d) := by
  unfold declarator
  split
  · exact SessionM.fail_twin _ _
  · refine .bind (freshId_twin _) fun _ _ hslot => .bind (declare_twin (.path hslot)) fun _ _ _ => ?_
    refine .bind (register_twin ⟨rfl, hslot, rfl, rfl⟩) fun _ _ _ => ?_
    split
    · exact .pure .nil
    · exact lift_twin fun p q h => stored_twin h hslot _

theorem declarators_twin (ds : List Declarator) :
    Twin (ShiftedSession δ) (ShiftedCommands δ) (declarators ds) (declarators ds) := by
  induction ds with
  | nil => exact .pure .nil
  | cons d rest ih =>
    rw [declarators]
    exact .bind (declarator_twin d) fun _ _ hxy => .bind ih fun _ _ hothers =>
      .pure (List.rel_append hxy hothers)

theorem expressionStmt_twin {p q : Surroundings} (h : ShiftedSurroundings δ p q) (e : Expr) :
    Twin (ShiftedEffects δ) (ShiftedCommands δ) (expressionStmt p e) (expressionStmt q e) := by
  unfold expressionStmt
  dsimp only
  split
  · -- behind a failure there is nothing to compare
    exact .bind (V := fun _ _ => False) (fail_twin h _ _) fun _ _ hfalse => hfalse.elim
  · split
    · exact .bind (update_twin h _ _ _ _) fun _ _ hxy => .pure hxy.commands
    · exact .bind (expr_twin h _) fun _ _ hxy => .pure hxy.commands

theorem returned_twin {p q : Surroundings} (h : ShiftedSurroundings δ p q) (line : Nat)
    (value : Option Expr) :
    Twin (ShiftedEffects δ) (ShiftedCommands δ) (returned p line value) (returned q line value) := by
  cases value with
  | none => exact .pure .nil
  | some e =>
    have hslot : Option.Rel (ShiftedPath δ) (p.callable?.bind (·.returnSlot))
        (q.callable?.bind (·.returnSlot)) := rel_bind h.callable? fun _ _ hk => hk.returnSlot
    unfold returned
    dsimp only
    obtain ⟨hp, hq⟩ | ⟨a, b, hp, hq, hab⟩ := rel_cases hslot
    · rw [hp, hq]
      exact .bind (warn_twin h line _ _) fun _ _ _ => .bind (expr_twin h e) fun _ _ hxy =>
        .pure hxy.commands
    · rw [hp, hq]
      exact stored_twin h hab e

theorem fields_twin {p q : Surroundings} (h : ShiftedSurroundings δ p q) {x y : ClassInfo}
    (hxy : ShiftedClass δ x y) (ms : List Member) :
    Twin (ShiftedEffects δ) (ShiftedCommands δ) (fields p x ms) (fields q y ms) := by
  induction ms with
  | nil => exact .pure .nil
  | cons m rest ih =>
    cases m with
    | property f =>
      rw [fields, fields]
      cases f.initializer with
      | none => exact ih
      | some e =>
        obtain ⟨hp, hq⟩ | ⟨a, b, hp, hq, hab⟩ := rel_cases (hxy.fieldSlot? f.name)
        · rw [hp, hq]
          exact ih
        · rw [hp, hq]
          refine .bind (value_twin h e) fun _ _ hv => .bind ih fun _ _ hothers => .pure ?_
          refine List.rel_append (List.rel_append hv.commands (.cons ?_ .nil)) hothers
          exact assign_shifted h (.path hab) hv.value
    | _ => simpa only [fields] using ih

/-- A script of its own: the names that it declares are shifted with its commands. -/
theorem inScript_twin (scope : LexicalScope) {prologue : List Command}
    (hprologue : ShiftedCommands δ prologue prologue) {m n : SessionM (List Command)}
    (hmn : Twin (ShiftedSession δ) (ShiftedCommands δ) m n) :
    Twin (ShiftedSession δ) (ShiftedCommands δ) (inScript scope prologue m)
      (inScript scope prologue n) := by
  intro s t h
  have hagree := hmn _ _ (h.opened scope)
  rw [run_inScript, run_inScript]
  generalize m.run (s.opened scope []) = x at hagree ⊢
  generalize n.run (t.opened scope []) = y at hagree ⊢
  cases hagree with
  | failed e s' t' => exact .failed e _ _
  | done hxy h' =>
    refine .done (List.rel_append (List.rel_append ?_ hprologue) hxy) (h.closed h')
    exact declarations_shifted h'.preamble

theorem callableScript_twin (id : DeclId) (line : Nat) (enclosing : Option ClassScope)
    {prologue : List Command} (hprologue : ShiftedCommands δ prologue prologue)
    {m n : SessionM (Emitted Flow)} (hmn : Twin (ShiftedSession δ) (ShiftedEmitted δ Eq) m n) :
    Twin (ShiftedSession δ) Eq (callableScript id line enclosing prologue m)
      (callableScript id line enclosing prologue n) := by
  unfold callableScript
  refine .bind .get fun s t hst => ?_
  obtain ⟨hs, ht⟩ | ⟨k, l, hs, ht, hk⟩ := rel_cases (hst.decls.callable? id)
  · rw [hs, ht]
    exact .pure rfl
  · rw [hs, ht]
    dsimp only
    rw [hk.script]
    refine .bind (inScript_twin _ hprologue ?_) fun _ _ hscript => pushScript_twin _ hscript line
    refine .bind (forM_twin hk.params fun _ _ hp => declare_twin (.path hp.slot)) fun _ _ _ => ?_
    have hreturn : Twin (ShiftedSession δ) Eq (k.returnSlot.forM SessionM.declare)
        (l.returnSlot.forM SessionM.declare) := by
      obtain ⟨hs, ht⟩ | ⟨a, b, hs, ht, hab⟩ := rel_cases hk.returnSlot
      · rw [hs, ht]
        exact .pure rfl
      · rw [hs, ht]
        exact declare_twin (.path hab)
    exact .bind hreturn fun _ _ _ => .bind hmn fun _ _ hxy => .pure hxy.commands

theorem fieldsScript_twin {x y : ClassInfo} (hxy : ShiftedClass δ x y) (scope : ClassScope)
    (ms : List Member) (line : Nat) :
    Twin (ShiftedSession δ) Eq (fieldsScript x scope ms line) (fieldsScript y scope ms line) := by
  unfold fieldsScript
  rw [hxy.name]
  refine .bind (inScript_twin _ .nil ?_) fun _ _ hscript => pushScript_twin _ hscript line
  refine .bind (forM_twin hxy.fields fun _ _ hf => declare_twin (.path hf.slot)) fun _ _ _ => ?_
  exact lift_twin fun p q h => fields_twin h hxy ms

theorem warnIf_twin {α β : Type} {V : α → β → Prop} (c : Bool) (line : Nat) (message : String)
    {m : SessionM α} {n : SessionM β} (hmn : Twin (ShiftedSession δ) V m n) :
    Twin (ShiftedSession δ) V
      (do
        if c then SessionM.warn line message
        m)
      (do
        if c then SessionM.warn line message
        n) := by
  cases c with
  | true => exact .bind (SessionM.warn_twin line message message) fun _ _ _ => hmn
  | false => exact hmn

mutual

/-- **Statements lower side by side**, however deep the bodies inside them are nested. -/
theorem stmts_twin : ∀ (body : List Stmt), stmtsNamed body = true →
    Twin (ShiftedSession δ) (ShiftedEmitted δ Eq) (stmts body) (stmts body)
  | [], _ => .pure (.quiet rfl)
  | first :: rest, hnamed => by
    rw [stmtsNamed, Bool.and_eq_true_iff] at hnamed
    have hfirst := stmt_twin first hnamed.1
    have hrest := stmts_twin rest hnamed.2
    rw [stmts]
    refine .bind hfirst fun x y hxy => ?_
    rw [hxy.value]
    split
    · split
      · exact .bind (SessionM.warn_twin _ _ _) fun _ _ _ => .pure hxy
      · exact .pure hxy
    · exact .bind hrest fun _ _ hothers =>
        .pure ⟨List.rel_append hxy.commands hothers.commands, hothers.value⟩

theorem stmt_twin : ∀ (st : Stmt), st.isNamed = true →
    Twin (ShiftedSession δ) (ShiftedEmitted δ Eq) (stmt st) (stmt st)
  | .block _ body, hnamed => stmts_twin body hnamed
  | .imports .., _ => .pure (.quiet rfl)
  | .bindings _ ds, _ => .bind (declarators_twin ds) fun _ _ hxy => .pure ⟨hxy, rfl⟩
  | .expression _ e, _ => .bind (lift_twin fun _ _ h => expressionStmt_twin h e) fun _ _ hxy =>
      .pure ⟨hxy, rfl⟩
  | .function f, hnamed =>
    have hparts := Bool.and_eq_true_iff.mp hnamed
    .bind (function_twin f hparts.1 hparts.2) fun _ _ _ => .pure (.quiet rfl)
  | .classDef c, hnamed => .bind (classDef_twin c hnamed) fun _ _ _ => .pure (.quiet rfl)
  | .returning line value, _ => .bind (lift_twin fun _ _ h => returned_twin h line value)
      fun _ _ hxy => .pure ⟨hxy, rfl⟩
  | .typeOnly _, _ => .pure (.quiet rfl)
  | .empty _, _ => .pure (.quiet rfl)
  | .other line _, _ => .bind (SessionM.warn_twin line _ _) fun _ _ _ => .pure (.quiet rfl)

theorem function_twin : ∀ (f : FunctionDecl), f.name.isSome = true → f.bodyNamed = true →
    Twin (ShiftedSession δ) Eq (function f) (function f)
  | ⟨id, name, params, some body, isAsync, line⟩, hname, hnamed => by
    have hbody := stmts_twin body hnamed
    rw [function]
    refine .bind (Declare.function_twin hname) fun _ _ _ => warnIf_twin _ _ _ ?_
    refine .bind .get fun s t hst => ?_
    rw [hst.scope]
    exact callableScript_twin _ _ _ .nil hbody
  | ⟨id, name, params, none, isAsync, line⟩, _, _ => .pure rfl

theorem classDef_twin : ∀ (c : ClassDecl), c.isNamed = true →
    Twin (ShiftedSession δ) Eq (classDef c) (classDef c)
  | ⟨id, name, parent, isDeclared, isAbstract, members, line⟩, hnamed => by
    have hparts := Bool.and_eq_true_iff.mp hnamed
    have hconstructor := fun x y (hxy : ShiftedClass δ x y) scope prologue
        (hprologue : ShiftedCommands δ prologue prologue) =>
      constructor_twin hxy scope hprologue members hparts.2
    have hmethods := fun x y (hxy : ShiftedClass δ x y) scope =>
      methods_twin hxy scope members hparts.2
    rw [classDef]
    split
    · exact .pure rfl
    · refine .bind (Declare.classDef_twin hparts.1) fun _ _ _ => .bind .get fun s t hst => ?_
      obtain ⟨hs, ht⟩ | ⟨x, y, hs, ht, hxy⟩ := rel_cases (hst.decls.class? id)
      · rw [hs, ht]
        exact .pure rfl
      · rw [hs, ht]
        dsimp only
        rw [hxy.name]
        refine .bind (fieldsScript_twin hxy _ _ _) fun _ _ _ => .bind .get fun s t hst => ?_
        rw [hst.qualify]
        have hprologue : ShiftedCommands δ [Command.invoke (t.qualify (classScript y.name))]
            [Command.invoke (t.qualify (classScript y.name))] :=
          .cons (.invoke (.path (.same _))) .nil
        refine .bind (hconstructor _ _ hxy _ _ hprologue) ?_
        rintro found _ rfl
        split
        · exact hmethods _ _ hxy _
        · exact .bind (pushScript_twin _ hprologue line) fun _ _ _ => hmethods _ _ hxy _

theorem constructor_twin {x y : ClassInfo} (hxy : ShiftedClass δ x y) (scope : ClassScope)
    {prologue : List Command} (hprologue : ShiftedCommands δ prologue prologue) :
    ∀ (ms : List Member), membersNamed ms = true →
      Twin (ShiftedSession δ) Eq (constructor x scope prologue ms) (constructor y scope prologue ms)
  | [], _ => .pure rfl
  | .constructor ⟨id, _, _, some body, _, line⟩ :: rest, hnamed => by
    rw [membersNamed, Bool.and_eq_true_iff] at hnamed
    have hbody := stmts_twin body hnamed.1
    have hrest := constructor_twin hxy scope hprologue rest hnamed.2
    rw [constructor, constructor, hxy.constructor]
    split
    · exact .bind (callableScript_twin _ _ _ hprologue hbody) fun _ _ _ => .pure rfl
    · exact hrest
  | .constructor ⟨id, _, _, none, _, line⟩ :: rest, hnamed => by
    rw [membersNamed, Bool.and_eq_true_iff] at hnamed
    have hrest := constructor_twin hxy scope hprologue rest hnamed.2
    rw [constructor, constructor, hxy.constructor]
    split
    · exact .pure rfl
    · exact hrest
  | .method .. :: rest, hnamed =>
    constructor_twin hxy scope hprologue rest (Bool.and_eq_true_iff.mp hnamed).2
  | .property _ :: rest, hnamed =>
    constructor_twin hxy scope hprologue rest (Bool.and_eq_true_iff.mp hnamed).2
  | .other .. :: rest, hnamed =>
    constructor_twin hxy scope hprologue rest (Bool.and_eq_true_iff.mp hnamed).2

theorem methods_twin {x y : ClassInfo} (hxy : ShiftedClass δ x y) (scope : ClassScope) :
    ∀ (ms : List Member), membersNamed ms = true →
      Twin (ShiftedSession δ) Eq (methods x scope ms) (methods y scope ms)
  | [], _ => .pure rfl
  | .method ⟨id, _, _, some body, isAsync, line⟩ _ :: rest, hnamed => by
    rw [membersNamed, Bool.and_eq_true_iff] at hnamed
    have hbody := stmts_twin body hnamed.1
    have hrest := methods_twin hxy scope rest hnamed.2
    rw [methods, methods]
    refine warnIf_twin _ _ _ ?_
    exact .bind (callableScript_twin _ _ _ .nil hbody) fun _ _ _ => hrest
  | .method ⟨_, _, _, none, _, _⟩ _ :: rest, hnamed =>
    methods_twin hxy scope rest (Bool.and_eq_true_iff.mp hnamed).2
  | .constructor _ :: rest, hnamed =>
    methods_twin hxy scope rest (Bool.and_eq_true_iff.mp hnamed).2
  | .property _ :: rest, hnamed =>
    methods_twin hxy scope rest (Bool.and_eq_true_iff.mp hnamed).2
  | .other line kind :: rest, hnamed =>
    .bind (SessionM.warn_twin line _ _) fun _ _ _ =>
      methods_twin hxy scope rest (Bool.and_eq_true_iff.mp hnamed).2

end

end Lower

/-! ## Units -/

/-- Two compilations of one unit that differ by a shift. -/
structure ShiftedCompilation (δ : Shift) (c d : Compilation) : Prop where
  context : c.context = d.context
  /-- The scripts have the same names, in the same order. -/
  names : c.scripts.keys = d.scripts.keys
  scripts : ∀ name : String, Option.Rel (ShiftedCommands δ) c.scripts[name]? d.scripts[name]?
  warnings : List.Forall₂ SamePlace c.warnings d.warnings

/-- Maps that know the same names list them in the same order. -/
theorem Scripts.keys_eq {α : Type} {a b : Scripts α}
    (h : ∀ name : String, a[name]?.isSome = b[name]?.isSome) : a.keys = b.keys := by
  have hequiv : (Std.TreeMap.map (fun _ _ => ()) a).Equiv (Std.TreeMap.map (fun _ _ => ()) b) := by
    refine .of_forall_mem_unit_iff fun name => ?_
    rw [Std.TreeMap.mem_map, Std.TreeMap.mem_map, Std.TreeMap.mem_iff_isSome_getElem?,
      Std.TreeMap.mem_iff_isSome_getElem?, h]
  have hkeys := hequiv.keys_eq
  rwa [Std.TreeMap.keys_map, Std.TreeMap.keys_map] at hkeys

namespace Session

theorem begin_shifted {s t : Session} (hids : (t.allocator.ids : Int) = s.allocator.ids + δ.ids)
    (hregisters : (t.allocator.registers : Int) = s.allocator.registers + δ.registers)
    (u : CompilationUnit) : ShiftedSession δ (s.begin u) (t.begin u) where
  symbols := ⟨fun name => by simp [begin], .nil⟩
  decls := fun id => by simp [begin]
  scope := rfl
  unit := rfl
  ids := hids
  registers := hregisters
  preamble := .nil
  warnings := .nil
  scripts := fun name => by simp [begin]

theorem lowerUnit_twin {u : CompilationUnit} (hnamed : stmtsNamed u.statements = true) :
    Twin (ShiftedSession δ) Eq (lowerUnit u) (lowerUnit u) := by
  unfold lowerUnit
  refine .bind (Declare.unit_twin hnamed) fun _ _ _ => ?_
  refine .bind (Lower.stmts_twin _ hnamed) fun x y hxy => ?_
  refine .bind (V := List.Forall₂ (ShiftedName δ)) (.of_run (run_modifyGet _) (run_modifyGet _)
    (fun _ _ h => h.preamble) fun _ _ h => h.withPreamble .nil) fun _ _ hnames => ?_
  refine .bind .get fun s t hst => ?_
  dsimp only
  rw [hst.frame]
  refine SessionM.pushScript_twin _ ?_ 1
  exact List.rel_append (declarations_shifted hnames) (bracket_shifted _ hxy.commands)

/-- **Recompilation only shifts numbers.**  Let a unit name all its functions and classes, and let two
sessions have counters that are `D` ids and `R` registers apart.  Either the unit fails in both with
the same error, or it compiles in both: to the same script names, with warnings about the same lines,
and to scripts that correspond command by command.  Where they name a register or a script, both name
the same one, or both begin with an id minted from one stem, `D` apart, or both are anonymous
registers, `R` apart. -/
theorem compile_shifts (D R : Int) (s t : Session) (u : CompilationUnit)
    (hids : (t.allocator.ids : Int) = s.allocator.ids + D)
    (hregisters : (t.allocator.registers : Int) = s.allocator.registers + R)
    (hnamed : stmtsNamed u.statements = true) :
    (∃ e, (s.compile u).1 = .error e ∧ (t.compile u).1 = .error e) ∨
    ∃ c d, (s.compile u).1 = .ok c ∧ (t.compile u).1 = .ok d ∧ ShiftedCompilation ⟨D, R⟩ c d := by
  have hbegin : ShiftedSession ⟨D, R⟩ (s.begin u) (t.begin u) := begin_shifted hids hregisters u
  have hagree := lowerUnit_twin hnamed _ _ hbegin
  unfold compile
  generalize (lowerUnit u).run (s.begin u) = x at hagree ⊢
  generalize (lowerUnit u).run (t.begin u) = y at hagree ⊢
  cases hagree with
  | failed e s' t' => exact .inl ⟨e, rfl, rfl⟩
  | done _ h =>
    refine .inr ⟨_, _, rfl, rfl, rfl, Scripts.keys_eq fun name => ?_, h.scripts, h.warnings⟩
    exact rel_isSome (h.scripts name)

/-! A unit compiled with the ids five back and the registers three on.  A script name is made from the
slot of a variable. -/

/-- `function f(a) { return a++ } let x = 1; new x(); let y = f(2)` -/
def renumberedUnit : CompilationUnit := .ofFile "main.ts" [
  .function ⟨0, some "f", [⟨.identifier "a", false, none, 0⟩],
    some [.returning 0 (some (.unary ⟨0, none⟩ .increment .after (.identifier ⟨0, none⟩ "a")))],
    false, 0⟩,
  .bindings 0 [⟨.identifier "x", some (.number ⟨0, none⟩ (.ofInt 1)), 0⟩],
  .expression 0 (.construct ⟨0, none⟩ (.identifier ⟨0, none⟩ "x") []),
  .bindings 0 [⟨.identifier "y", some (.call ⟨0, none⟩ (.identifier ⟨0, none⟩ "f")
    [.number ⟨0, none⟩ (.ofInt 2)]), 0⟩]] 1

/-- A session whose counters stand somewhere. -/
def counting (ids registers : Nat) : Session := { allocator := { ids, registers } }

/-- A script of that unit, compiled in such a session. -/
def renumbered (ids registers : Nat) (name : String) : Option (List Command) :=
  ((counting ids registers).compile renumberedUnit).1.toOption.bind (·.scripts[name]?)

theorem compile_shifts_renumbered :
    (∃ c d, ((counting 7 0).compile renumberedUnit).1 = .ok c ∧
      ((counting 2 3).compile renumberedUnit).1 = .ok d ∧ ShiftedCompilation ⟨-5, 3⟩ c d) ∧
    renumbered 7 0 "main" = some [.declare "x_10", .declare "y_11", .summon "main",
      .set (some "main") "x_10" "1", .invoke "x_10_INIT", .set (some "main") "a_8" "2",
      .invoke "main/f", .operation (some "main") "y_11" .assign "f_return_9", .kill "main"] ∧
    renumbered 2 3 "main" = some [.declare "x_5", .declare "y_6", .summon "main",
      .set (some "main") "x_5" "1", .invoke "x_5_INIT", .set (some "main") "a_3" "2",
      .invoke "main/f", .operation (some "main") "y_6" .assign "f_return_4", .kill "main"] ∧
    renumbered 7 0 "f" = some [.declare "a_8", .declare "f_return_9", .declare "register1",
      .declare "register2", .operation (some "main") "register1" .assign "a_8",
      .set (some "main") "register2" "1", .operation (some "main") "a_8" .add "register2",
      .operation (some "main") "f_return_9" .assign "register1"] ∧
    renumbered 2 3 "f" = some [.declare "a_3", .declare "f_return_4", .declare "register4",
      .declare "register5", .operation (some "main") "register4" .assign "a_3",
      .set (some "main") "register5" "1", .operation (some "main") "a_3" .add "register5",
      .operation (some "main") "f_return_4" .assign "register4"] := by
  refine ⟨?_, by decide +kernel, by decide +kernel, by decide +kernel, by decide +kernel⟩
  obtain ⟨e, he, -⟩ | hcompiled :=
    compile_shifts (-5) 3 (counting 7 0) (counting 2 3) renumberedUnit rfl rfl rfl
  · have hok : ((counting 7 0).compile renumberedUnit).1.toOption.isSome = true := by decide +kernel
    rw [he] at hok
    cases hok
  · exact hcompiled

end Session

end FrameScript
