/-
  Where declared names come from.

  A name can be declared only after it was minted, and it is declared once.  The file keeps books on
  that.  A session holds the names in its preamble and those that its scripts declare; it owes the
  slots that are recorded for callables and classes whose scripts are still to come.  The books are
  kept by counting each name:

  * declaring mints what it records (`Owes`);
  * lowering a piece of work declares what was owed for it and what it mints itself, and no name more
    often than that (`Runs.pays`).

  The second is an induction over the rules of lowering.  Work that follows other work finds its
  slots untouched, because each declaration has an id of its own.
-/
import FrameScript.Proofs.Frames
import FrameScript.Proofs.Tables
import Mathlib.Data.List.Flatten

namespace FrameScript

open Source
open Allocator (Mints)

/-! ## Names that commands declare -/

/-- The names that commands declare, in order. -/
def declaredBy (commands : List Command) : List String :=
  commands.filterMap fun
    | .declare name => some name
    | _ => none

@[simp] theorem declaredBy_append (xs ys : List Command) :
    declaredBy (xs ++ ys) = declaredBy xs ++ declaredBy ys := List.filterMap_append

@[simp] theorem declaredBy_declarations (names : List String) :
    declaredBy (declarations names) = names := by
  induction names with
  | nil => rfl
  | cons name rest ih => exact congrArg (name :: ·) ih

theorem declaredBy_inFrame {frame : Frame} {commands : List Command}
    (h : ∀ c ∈ commands, c.InFrame frame) : declaredBy commands = [] := by
  refine List.filterMap_eq_nil_iff.mpr fun c hc => ?_
  have hframe := h c hc
  cases c with
  | declare name => exact absurd hframe id
  | _ => rfl

@[simp] theorem declaredBy_bracket (frame : Frame) (body : List Command) :
    declaredBy (frame.bracket body) = declaredBy body := by
  cases frame with
  | none => simp [Frame.bracket, Frame.summon, Frame.kill]
  | some tag =>
    show declaredBy ([.summon tag] ++ body ++ [.kill tag]) = _
    simp [declaredBy]

/-- The names that all scripts declare. -/
def Scripts.declared (scripts : Scripts (List Command)) : List String :=
  scripts.toList.flatMap fun entry => declaredBy entry.2

/-- Storing a script adds at most the names that it declares. -/
theorem Scripts.count_declared_insert (scripts : Scripts (List Command)) (name : String)
    (body : List Command) (x : String) :
    (Scripts.declared (scripts.insert name body)).count x ≤
      (declaredBy body).count x + scripts.declared.count x := by
  have hperm : (scripts.insert name body).toList.Perm ((name, body) :: scripts.toList.filter _) :=
    Std.TreeMap.toList_insert_perm
  have hcount := (hperm.flatMap_right fun entry => declaredBy entry.2).count_eq x
  have hkept : (scripts.toList.filter fun entry => ¬name == entry.1).Sublist scripts.toList :=
    List.filter_sublist
  have hle := (hkept.flatMap fun entry => declaredBy entry.2).count_le x
  simp only [List.flatMap_cons, List.count_append] at hcount
  simp only [Scripts.declared]
  omega

/-! ## What a session holds and what it owes -/

/-- The names that the current script and the stored scripts declare. -/
def Session.held (s : Session) : List String := s.allocator.preamble ++ s.scripts.declared

namespace DeclTable

/-- The slots recorded for a declaration. -/
def slots (t : DeclTable) (id : DeclId) : List String :=
  match t[id]? with
  | some (.callable k) => k.slots
  | some (.classInfo info) => info.fields.map (·.2)
  | none => []

/-- The slots recorded for some declarations. -/
def pending (t : DeclTable) (ids : List DeclId) : List String := ids.flatMap t.slots

theorem slots_congr {t t' : DeclTable} {id : DeclId} (h : t'[id]? = t[id]?) :
    t'.slots id = t.slots id := by
  unfold slots
  rw [h]

theorem pending_congr {t t' : DeclTable} {ids : List DeclId} (h : ∀ i ∈ ids, t'[i]? = t[i]?) :
    t'.pending ids = t.pending ids := by
  induction ids with
  | nil => rfl
  | cons i rest ih =>
    simp only [pending, List.flatMap_cons] at ih ⊢
    rw [slots_congr (h i List.mem_cons_self), ih fun j hj => h j (List.mem_cons_of_mem i hj)]

@[simp] theorem pending_cons (t : DeclTable) (id : DeclId) (ids : List DeclId) :
    t.pending (id :: ids) = t.slots id ++ t.pending ids := List.flatMap_cons

@[simp] theorem pending_append (t : DeclTable) (ids ids' : List DeclId) :
    t.pending (ids ++ ids') = t.pending ids ++ t.pending ids' := List.flatMap_append

theorem count_pending_perm (t : DeclTable) {ids ids' : List DeclId} (h : ids.Perm ids') (x : String) :
    (t.pending ids).count x = (t.pending ids').count x := (h.flatMap_right t.slots).count_eq x

theorem count_pending_sublist (t : DeclTable) {ids ids' : List DeclId} (h : ids.Sublist ids')
    (x : String) : (t.pending ids).count x ≤ (t.pending ids').count x := (h.flatMap t.slots).count_le x

theorem slots_callable {t : DeclTable} {id : DeclId} {k : Callable} (h : t.callable? id = some k) :
    t.slots id = k.slots := by
  unfold callable? at h
  unfold slots
  split at h
  · next k' hk' =>
    cases h
    rw [hk']
  · cases h

theorem slots_class {t : DeclTable} {id : DeclId} {info : ClassInfo} (h : t.class? id = some info) :
    t.slots id = info.fields.map (·.2) := by
  unfold class? at h
  unfold slots
  split at h
  · next info' hinfo' =>
    cases h
    rw [hinfo']
  · cases h

end DeclTable

/-! ## Declaring mints what it records -/

/-- Between the two sessions only ids were minted, and what is newly owed for the declarations is
among them. -/
structure Owes (ids : List DeclId) (s t : Session) : Prop where
  held_eq : t.held = s.held
  minted : ∃ names, Mints s.allocator names t.allocator ∧
    ∀ x, (t.decls.pending ids).count x ≤ (s.decls.pending ids).count x + names.count x

theorem Session.mints_named (s : Session) (name : Option String) :
    ∃ names, Mints s.allocator names (s.named name).2.allocator := by
  cases name with
  | some name => exact ⟨[], .nothing _⟩
  | none => exact ⟨_, .id defaultStem (.nothing _)⟩

theorem Session.held_untouched {s t : Session} (h : s.Untouched t) : t.held = s.held := by
  rw [held, held, h.preamble, h.scripts]

/-- The ids of a callable are minted in a row. -/
theorem Callable.MadeOf.mints {k : Callable} {s : Session} {script : String} {f : FunctionDecl}
    (h : k.MadeOf s script f) : Mints s.allocator k.slots (s.allocator.counted k.slots.length) := by
  rw [Declare.length_slots h, h.slots_eq]
  exact s.allocator.mints_counted _

theorem FunctionDeclared.owes {s t : Session} {f : FunctionDecl} (h : FunctionDeclared s f t)
    (hnodup : f.declIds.Nodup) : Owes f.declIds s t := by
  refine ⟨Session.held_untouched (.function h), ?_⟩
  cases h with
  | known _ => exact ⟨[], .nothing _, fun x => Nat.le_add_right _ _⟩
  | fresh k hfresh hbody hk =>
    obtain ⟨names, hnames⟩ := s.mints_named f.name
    refine ⟨names ++ k.slots, hnames.trans hk.mints, fun x => ?_⟩
    obtain ⟨body, hbody⟩ := Option.ne_none_iff_exists'.mp hbody
    rw [f.declIds_of_body hbody] at hnodup ⊢
    have hinner : (declIds body).Nodup ∧ f.id ∉ declIds body :=
      ⟨(List.nodup_cons.mp hnodup).2, (List.nodup_cons.mp hnodup).1⟩
    generalize ht : ((s.named f.name).2.registered ⟨(s.named f.name).1, k.path, .function,
      some f.id⟩).withCallable f.id k = t
    have hself : t.decls.slots f.id = k.slots := by
      rw [← ht, DeclTable.slots, Session.withCallable, Session.recorded_self]
    have hothers : t.decls.pending (declIds body) = s.decls.pending (declIds body) := by
      refine DeclTable.pending_congr fun i hi => ?_
      have hne : i ≠ f.id := fun heq => hinner.2 (heq ▸ hi)
      rw [← ht]
      exact (FunctionDeclared.fresh k hfresh (by rw [hbody]; exact Option.some_ne_none _) hk).decls_eq
        hne
    simp only [DeclTable.pending_cons, List.count_append, hself, hothers]
    omega

theorem MemberDeclared.owes {info info' : ClassInfo} {s t : Session} {m : Member}
    (h : MemberDeclared info s m info' t) (hnodup : m.declIds.Nodup) :
    ∃ names, Mints s.allocator names t.allocator ∧ ∀ x,
      (info'.fields.map (·.2)).count x + (t.decls.pending m.declIds).count x ≤
        (info.fields.map (·.2)).count x + (s.decls.pending m.declIds).count x + names.count x := by
  -- a method and a constructor are recorded alike
  have recorded : ∀ {f : FunctionDecl} {k : Callable} {r : Session}, r.decls = s.decls →
      f.body ≠ none → f.declIds.Nodup → ∀ x,
      ((r.withCallable f.id k).decls.pending f.declIds).count x ≤
        (s.decls.pending f.declIds).count x + k.slots.count x := by
    intro f k r hr hbody hnodup x
    obtain ⟨body, hbody⟩ := Option.ne_none_iff_exists'.mp hbody
    rw [f.declIds_of_body hbody] at hnodup ⊢
    have hself : (r.withCallable f.id k).decls.slots f.id = k.slots := by
      rw [DeclTable.slots, Session.withCallable, Session.recorded_self]
    have hothers : (r.withCallable f.id k).decls.pending (declIds body) =
        s.decls.pending (declIds body) := by
      refine DeclTable.pending_congr fun i hi => ?_
      have hne : i ≠ f.id := fun heq => (List.nodup_cons.mp hnodup).1 (heq ▸ hi)
      rw [Session.withCallable, Session.recorded_other _ _ hne, ← hr]
      rfl
    simp only [DeclTable.pending_cons, List.count_append, hself, hothers]
    omega
  cases h with
  | @method f isStatic name k hname hbody hk =>
    refine ⟨k.slots, hk.mints, fun x => ?_⟩
    have hcount := recorded (k := k) (r := s.registered ⟨memberKey info.name name, k.path,
      methodKind isStatic, some f.id⟩) rfl hbody hnodup x
    simp only [Member.declIds] at hcount ⊢
    omega
  | @constructor f k hbody hk =>
    refine ⟨k.slots, hk.mints, fun x => ?_⟩
    have hcount := recorded (k := k) (r := s) rfl hbody hnodup x
    simp only [Member.declIds] at hcount ⊢
    omega
  | property p =>
    refine ⟨_, .id (methodScript info.name p.name) (.nothing _), fun x => ?_⟩
    simp only [List.map_append, List.map_cons, List.map_nil, List.count_append]
    exact Nat.le_of_eq (by rw [Nat.add_right_comm]; rfl)
  | nothing m _ _ _ => exact ⟨[], .nothing _, fun x => Nat.le_add_right _ _⟩

theorem MembersDeclared.owes {info info' : ClassInfo} {s t : Session} {ms : List Member}
    (h : MembersDeclared info s ms info' t) (hnodup : (memberIds ms).Nodup) :
    ∃ names, Mints s.allocator names t.allocator ∧ ∀ x,
      (info'.fields.map (·.2)).count x + (t.decls.pending (memberIds ms)).count x ≤
        (info.fields.map (·.2)).count x + (s.decls.pending (memberIds ms)).count x + names.count x := by
  induction h with
  | nil info s => exact ⟨[], .nothing _, fun x => Nat.le_add_right _ _⟩
  | @cons info info' info'' s t u m rest hfirst hrest ih =>
    rw [memberIds] at hnodup ⊢
    obtain ⟨hm, hms, hdisjoint⟩ := List.nodup_append'.mp hnodup
    obtain ⟨names, hnames, hcount⟩ := hfirst.owes hm
    obtain ⟨more, hmore, hcount'⟩ := ih hms
    refine ⟨names ++ more, hnames.trans hmore, fun x => ?_⟩
    -- neither part touches the slots of the other
    have hlater : t.decls.pending (memberIds rest) = s.decls.pending (memberIds rest) :=
      DeclTable.pending_congr fun i hi => hfirst.decls_eq fun hin => hdisjoint (m.ownIds_subset hin) hi
    have hearlier : u.decls.pending m.declIds = t.decls.pending m.declIds :=
      DeclTable.pending_congr fun i hi => hrest.decls_eq fun hin => hdisjoint hi (ownIds_subset rest hin)
    have h₁ := hcount x
    have h₂ := hcount' x
    rw [hlater] at h₂
    simp only [DeclTable.pending_append, List.count_append, hearlier]
    omega

theorem ClassDeclared.owes {s t : Session} {c : ClassDecl} (h : ClassDeclared s c t)
    (hnodup : c.declIds.Nodup) : Owes c.declIds s t := by
  refine ⟨Session.held_untouched (.classDef h), ?_⟩
  rw [c.declIds_eq] at hnodup ⊢
  obtain ⟨hid, hms⟩ := List.nodup_cons.mp hnodup
  cases h with
  | known _ => exact ⟨[], .nothing _, fun x => Nat.le_add_right _ _⟩
  | @fresh info u _ hfresh hmembers =>
    obtain ⟨names, hnames⟩ := s.mints_named c.name
    obtain ⟨more, hmore, hcount⟩ := hmembers.owes hms
    refine ⟨names ++ more, hnames.trans hmore, fun x => ?_⟩
    have hself : (u.recorded c.id (.classInfo info)).decls.slots c.id = info.fields.map (·.2) := by
      rw [DeclTable.slots, Session.recorded_self]
    have hothers : (u.recorded c.id (.classInfo info)).decls.pending (memberIds c.members) =
        u.decls.pending (memberIds c.members) :=
      DeclTable.pending_congr fun i hi => Session.recorded_other _ _ fun heq => hid (heq ▸ hi)
    have hbefore : ((s.named c.name).2.registered ⟨(s.named c.name).1,
        (s.named c.name).2.qualify (s.named c.name).1, .classDef, some c.id⟩).decls = s.decls :=
      s.named_decls c.name
    have hx := hcount x
    rw [hbefore] at hx
    have hbare : (((s.named c.name).2.bareClass (s.named c.name).1).fields.map (·.2)).count x = 0 :=
      List.count_nil
    simp only [DeclTable.pending_cons, List.count_append, hself, hothers]
    omega

/-- Two declarations after each other, each of which leaves the other's records alone. -/
theorem Owes.append {ids ids' : List DeclId} {s t u : Session} (h : Owes ids s t)
    (h' : Owes ids' t u) (hlater : ∀ i ∈ ids', t.decls[i]? = s.decls[i]?)
    (hearlier : ∀ i ∈ ids, u.decls[i]? = t.decls[i]?) : Owes (ids ++ ids') s u := by
  refine ⟨h'.held_eq.trans h.held_eq, ?_⟩
  obtain ⟨names, hnames, hcount⟩ := h.minted
  obtain ⟨more, hmore, hcount'⟩ := h'.minted
  refine ⟨names ++ more, hnames.trans hmore, fun x => ?_⟩
  have h₁ := hcount x
  have h₂ := hcount' x
  rw [DeclTable.pending_congr hlater] at h₂
  simp only [DeclTable.pending_append, List.count_append, DeclTable.pending_congr hearlier]
  omega

theorem StmtDeclared.owes {s t : Session} {st : Stmt} (h : StmtDeclared s st t)
    (hnodup : st.declIds.Nodup) : Owes st.declIds s t := by
  cases h with
  | imports line i =>
    refine ⟨Session.held_untouched (.registeredAll s _), [], ?_, fun x => Nat.le_add_right _ _⟩
    rw [(s.registeredAll_decls _).2]
    exact .nothing _
  | function h => exact h.owes hnodup
  | classDef h => exact h.owes hnodup
  | nothing _ => exact ⟨rfl, [], .nothing _, fun x => Nat.le_add_right _ _⟩

theorem UnitDeclared.owes {s t : Session} {sts : List Stmt} (h : UnitDeclared s sts t)
    (hnodup : (declIds sts).Nodup) : Owes (declIds sts) s t := by
  induction h with
  | nil s => exact ⟨rfl, [], .nothing _, fun x => Nat.le_add_right _ _⟩
  | cons hfirst hrest ih =>
    rw [declIds] at hnodup ⊢
    obtain ⟨hst, hsts, hdisjoint⟩ := List.nodup_append'.mp hnodup
    refine (hfirst.owes hst).append (ih hsts) ?_ ?_
    · exact fun i hi => hfirst.decls_eq fun hin => hdisjoint hin hi
    · exact fun i hi => hrest.decls_eq fun hin => hdisjoint hi hin

/-! ## Lowering declares what is owed and what it mints -/

/-- An expression inside a statement declares nothing by a command. -/
theorem Evaluates.declaredBy_eq_nil {q : Surroundings} {use : Use} {e : Expr} {fx gx : Effects}
    {commands : List Command} (h : Evaluates q use e fx commands gx) : declaredBy commands = [] := by
  cases h with
  | dropped hrun => exact declaredBy_inFrame (Lower.emitsInFrame q e hrun)
  | stored slot hrun =>
    have hassign : ∀ v, ∀ c ∈ [Lower.assign q slot v], c.InFrame q.frame := by
      intro v c hc
      obtain rfl := List.mem_singleton.mp hc
      exact Lower.inFrame_assign slot v
    rw [declaredBy_append, declaredBy_inFrame (Lower.emitsInFrame q e hrun),
      declaredBy_inFrame (hassign _)]
    rfl
  | updated m fixity _ hop htarget => exact declaredBy_inFrame (Lower.inFrame_updated _ _ _ _)

/-- What lowering emits into the current script declares nothing; declarations go to the preamble. -/
theorem Runs.declaredBy_eq_nil {task : Task} {s t : Session} {log : List Event} {out : Emitted Flow}
    (h : Runs task s log out t) : declaredBy out.commands = [] := by
  induction h with
  | seq _ _ _ ihfirst ihrest =>
    rw [declaredBy_append, ihrest, List.append_nil]
    exact ihfirst
  | returned rest _ ih => exact ih
  | inside _ _ ih => exact ih
  | evaluates _ he => exact he.declaredBy_eq_nil
  | _ => rfl

/-- The names that the later session holds beyond those of the earlier one were due, or minted on the
way. -/
def Pays (due : List String) (s t : Session) : Prop :=
  ∃ names, Mints s.allocator names t.allocator ∧
    ∀ x, t.held.count x ≤ s.held.count x + due.count x + names.count x

namespace Pays

variable {due due' : List String} {s t u : Session}

theorem refl (s : Session) : Pays [] s s :=
  ⟨[], .nothing _, fun x => Nat.le_of_eq (by simp)⟩

theorem noting (s : Session) (ws : List Diagnostic) : Pays [] s (s.noting ws) := refl s

theorem trans (h : Pays due s t) (h' : Pays due' t u) : Pays (due ++ due') s u := by
  obtain ⟨names, hnames, hcount⟩ := h
  obtain ⟨more, hmore, hcount'⟩ := h'
  refine ⟨names ++ more, hnames.trans hmore, fun x => ?_⟩
  have h₁ := hcount x
  have h₂ := hcount' x
  simp only [List.count_append]
  omega

theorem mono (h : Pays due s t) (hle : ∀ x, due.count x ≤ due'.count x) : Pays due' s t := by
  obtain ⟨names, hnames, hcount⟩ := h
  refine ⟨names, hnames, fun x => ?_⟩
  have h₁ := hcount x
  have h₂ := hle x
  omega

/-- What was minted for the records of a declaration is due from then on. -/
theorem after_owes {ids : List DeclId} (h : Owes ids s t) (h' : Pays (t.decls.pending ids) t u) :
    Pays (s.decls.pending ids) s u := by
  obtain ⟨names, hnames, hcount⟩ := h.minted
  obtain ⟨more, hmore, hcount'⟩ := h'
  refine ⟨names ++ more, hnames.trans hmore, fun x => ?_⟩
  have h₁ := hcount x
  have h₂ := hcount' x
  rw [h.held_eq] at h₂
  simp only [List.count_append]
  omega

theorem withVariable (s : Session) (name : String) : Pays [] s (s.withVariable name) := by
  refine ⟨_, .id name (.preamble (s.withVariable name).allocator.preamble (.nothing _)), fun x => ?_⟩
  show (s.allocator.preamble ++ [s.variableSlot name] ++ s.scripts.declared).count x ≤ _
  simp only [Session.held, List.count_append, List.count_nil]
  exact Nat.le_of_eq (by rw [Nat.add_right_comm, Nat.add_zero]; rfl)

/-- The registers that an expression needs are declared as they are minted. -/
theorem withEffects (s : Session) {fx : Effects} (h : s.toEffects.Extends fx) :
    Pays [] s (s.withEffects fx) := by
  obtain ⟨k, hk⟩ := h.allocator
  have hallocator : (s.withEffects fx).allocator = s.allocator.staged k := hk
  refine ⟨_, hallocator ▸ s.allocator.mints_staged k, fun x => ?_⟩
  have hheld : (s.withEffects fx).held =
      s.allocator.preamble ++ s.allocator.nextRegisters k ++ s.scripts.declared := by
    rw [Session.held, hallocator]
    rfl
  rw [hheld]
  simp only [Session.held, List.count_append, List.count_nil]
  omega

theorem stored (s : Session) (name : String) {body : List Command} (line : Nat)
    (h : declaredBy body = []) : Pays [] s (s.stored name body line) := by
  obtain ⟨ws, hws⟩ := s.stored_eq_noting name body line
  rw [hws]
  refine ⟨[], .nothing _, fun x => ?_⟩
  have hcount := Scripts.count_declared_insert s.scripts name body x
  rw [h, List.count_nil] at hcount
  show (s.allocator.preamble ++ Scripts.declared (s.scripts.insert name body)).count x ≤ _
  simp only [Session.held, List.count_append, List.count_nil]
  omega

/-- A script of its own declares its slots, and what its body put into the preamble. -/
theorem script {scope : LexicalScope} {slots : List String} {name : String} {body : List Command}
    (line : Nat) (hbody : declaredBy body = t.allocator.preamble)
    (h : Pays due (s.opened scope slots) t) :
    Pays (slots ++ due) s ((s.closed t).stored name body line) := by
  obtain ⟨names, hnames, hcount⟩ := h
  obtain ⟨ws, hws⟩ := (s.closed t).stored_eq_noting name body line
  rw [hws]
  refine ⟨names, ?_, fun x => ?_⟩
  · have hback : Mints t.allocator [] { t.allocator with preamble := s.allocator.preamble } :=
      .preamble _ (.nothing _)
    have hrun := hnames.trans hback
    rw [List.append_nil] at hrun
    exact .preamble slots hrun
  · have hinsert := Scripts.count_declared_insert t.scripts name body x
    have hx := hcount x
    rw [hbody] at hinsert
    simp only [Session.held, Session.opened, List.count_append] at hx
    show (s.allocator.preamble ++ Scripts.declared (t.scripts.insert name body)).count x ≤ _
    simp only [Session.held, List.count_append]
    omega

end Pays

/-- The fields of a class whose script is still to come. -/
def Task.fieldSlots : Task → List String
  | .members info _ _ _ | .fieldsScript info _ _ _ => info.fields.map (·.2)
  | _ => []

/-- What is due for a piece of work. -/
def Task.due (task : Task) (t : DeclTable) : List String := task.fieldSlots ++ t.pending task.ids

theorem Task.split_fieldSlots {task first rest : Task} (h : task.split = some (first, rest)) :
    task.fieldSlots = first.fieldSlots ++ rest.fieldSlots := by
  cases Task.splits h with
  | members => exact (List.append_nil _).symm
  | _ => rfl

theorem Task.inside_fieldSlots {task inner : Task} (h : task.inside = some inner) :
    task.fieldSlots = inner.fieldSlots := by
  cases Task.encloses h <;> rfl

/-- **Lowering pays what it declares.**  Every name that a session holds after a piece of work was
held before, was owed for that work, or was minted by it, and is counted only once. -/
theorem Runs.pays {task : Task} {s t : Session} {log : List Event} {out : Emitted Flow}
    (h : Runs task s log out t) (hnodup : task.ids.Nodup) (hplain : declaredBy task.prologue = []) :
    Pays (task.due s.decls) s t := by
  induction h with
  | idle h =>
    obtain ⟨ws, rfl⟩ := h.eq_noting
    exact (Pays.noting _ ws).mono fun x => by simp
  | @seq task first rest s t u log log' commands out hsplit hfirst hrest ihfirst ihrest =>
    have hperm := Task.split_ids hsplit
    obtain ⟨hids, hids', hdisjoint⟩ := List.nodup_append'.mp (hperm.nodup_iff.mp hnodup)
    -- the first part leaves what is owed for the second
    have hlater : t.decls.pending rest.ids = s.decls.pending rest.ids :=
      DeclTable.pending_congr fun i hi => hfirst.decls_eq fun hin => hdisjoint hin hi
    obtain ⟨hp, hp'⟩ := Task.split_prologue hsplit
    have hboth := (ihfirst hids (by rw [hp]; rfl)).trans (ihrest hids' (by rw [hp']; rfl))
    refine hboth.mono fun x => ?_
    have hcount := s.decls.count_pending_perm hperm x
    simp only [Task.due, Task.split_fieldSlots hsplit, hlater, DeclTable.pending_append,
      List.count_append] at hcount ⊢
    omega
  | @returned st s t log commands rest _ ih =>
    obtain ⟨hids, -, -⟩ := List.nodup_append'.mp hnodup
    obtain ⟨ws, hws⟩ := t.skipping_eq_noting rest
    rw [hws]
    refine ((ih hids rfl).trans (Pays.noting t ws)).mono fun x => ?_
    simp only [Task.due, Task.fieldSlots, Task.ids, declIds, DeclTable.pending_append,
      List.count_append, List.count_nil]
    omega
  | inside hinside _ ih =>
    rw [Task.due, Task.inside_ids hinside, Task.inside_fieldSlots hinside]
    exact ih (Task.inside_ids hinside ▸ hnodup) (by rw [Task.inside_prologue hinside]; rfl)
  | declares _ _ s => exact (Pays.withVariable s _).mono fun x => by simp
  | evaluates htask he =>
    have heffects := Pays.withEffects _ he.extends
    rcases htask.prepared with ⟨ws, rfl⟩ | ⟨_, name, _, _, rfl⟩
    · exact ((Pays.noting _ ws).trans heffects).mono fun x => by simp
    · exact ((Pays.withVariable _ name).trans heffects).mono fun x => by simp
  | @function f body s t u log out hbody hdeclared _ ih =>
    have hids : f.declIds.Nodup := hnodup
    have howes := hdeclared.owes hids
    rw [f.declIds_of_body hbody] at hids
    obtain ⟨ws, hws⟩ := t.warnedIf_eq_noting f.isAsync f.line "async function is lowered synchronously"
    rw [hws] at ih
    have hpays := (Pays.noting t ws).trans (ih hids rfl)
    refine Pays.after_owes howes ?_
    show Pays (t.decls.pending f.declIds) t u
    rw [f.declIds_of_body hbody]
    exact hpays
  | @method info scope f isStatic body s t log out hbody _ ih =>
    have hids : f.declIds.Nodup := hnodup
    obtain ⟨ws, hws⟩ := s.warnedIf_eq_noting f.isAsync f.line "async method is lowered synchronously"
    rw [hws] at ih
    have hdue : Task.due (.method info scope (.method f isStatic)) s.decls =
        s.decls.pending (f.id :: declIds body) := by
      rw [← f.declIds_of_body hbody]
      rfl
    rw [f.declIds_of_body hbody] at hids
    rw [hdue]
    exact (Pays.noting s ws).trans (ih hids rfl)
  | @classDef c info s t u log out hown hdeclared hinfo _ ih =>
    have hids : c.declIds.Nodup := hnodup
    have howes := hdeclared.owes hids
    rw [c.declIds_eq] at hids
    have hmembers := ih (List.nodup_cons.mp hids).2 rfl
    have hdue : Task.due (.members info ⟨info.name, c.parent⟩ c.members c.line) t.decls =
        t.decls.pending c.declIds := by
      rw [c.declIds_eq, DeclTable.pending_cons, DeclTable.slots_class hinfo]
      rfl
    rw [hdue] at hmembers
    exact Pays.after_owes howes hmembers
  | @script task s t script log out hopens hrun ih =>
    have hbody : ∀ prologue, declaredBy prologue = [] →
        declaredBy (declarations t.allocator.preamble ++ prologue ++ out.commands) =
          t.allocator.preamble := by
      intro prologue hprologue
      rw [declaredBy_append, declaredBy_append, declaredBy_declarations, hrun.declaredBy_eq_nil,
        hprologue, List.append_nil, List.append_nil]
    cases hopens with
    | callable hk line enclosing prologue body =>
      have hinner := ih (List.nodup_cons.mp hnodup).2 rfl
      refine (Pays.script line (hbody prologue hplain) hinner).mono fun x => ?_
      simp only [Task.due, Task.fieldSlots, Task.ids, DeclTable.pending_cons,
        DeclTable.slots_callable hk, List.nil_append]
      exact Nat.le_refl _
    | fields info scope ms line =>
      have hinner := ih List.nodup_nil rfl
      exact Pays.script line (hbody [] rfl) hinner
  | @constructor info scope ms line id bodyLine body s t log out hfound _ ih =>
    have hsub := knownConstructor_ids hfound
    refine (ih (hsub.nodup hnodup) rfl).mono fun x => ?_
    have hcount := s.decls.count_pending_sublist hsub x
    simpa only [Task.due, Task.fieldSlots, Task.ids, List.nil_append] using hcount
  | defaulted scope line hnone s => exact (Pays.stored s _ line rfl).mono fun x => by simp

end FrameScript
