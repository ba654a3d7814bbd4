/-
  The slots of fields.

  A property of a class has two ways to its slot.  The script of the class asks the list of the fields,
  where the first field of a name is found (`ClassInfo.fieldSlot?`); `this.p` asks the symbol table,
  where the last member that was registered under the key of `p` is found.  Both find the slot of a
  property if it is the only one of its name and no method with a body of this name stands behind it
  (`ClassDecl.Leads`).
-/
import FrameScript.Proofs.Belonging
import FrameScript.Proofs.Pieces

namespace FrameScript

open Source

/-! ## Declaring a property -/

section Declaring

variable {info info' : ClassInfo} {s t : Session} {ms : List Member}

/-- The property is the only one of its name, and what stands behind it does not take its key. -/
structure Source.ClassDecl.Leads (c : ClassDecl) (p : Property) (before after : List Member) : Prop where
  members_eq : c.members = before ++ .property p :: after
  before : ∀ p', .property p' ∈ before → p'.name ≠ p.name
  after : ∀ m ∈ after, m.offered? ≠ some p.name

theorem MembersDeclared.append {xs ys : List Member} (h : MembersDeclared info s (xs ++ ys) info' t) :
    ∃ info₁ m, MembersDeclared info s xs info₁ m ∧ MembersDeclared info₁ m ys info' t := by
  induction xs generalizing info s with
  | nil => exact ⟨info, s, .nil info s, h⟩
  | cons x rest ih =>
    cases h with
    | cons hfirst hrest =>
      obtain ⟨info₁, m, hxs, hys⟩ := ih hrest
      exact ⟨info₁, m, .cons hfirst hxs, hys⟩

/-- A name that no property has gets no slot. -/
theorem MembersDeclared.fieldSlot_none (h : MembersDeclared info s ms info' t) {name : String}
    (hnone : info.fieldSlot? name = none) (hms : ∀ p, .property p ∈ ms → p.name ≠ name) :
    info'.fieldSlot? name = none := by
  induction h with
  | nil info s => exact hnone
  | @cons info _ _ _ _ _ _ _ hfirst _ ih =>
    refine ih ?_ fun p hp => hms p (List.mem_cons_of_mem _ hp)
    cases hfirst with
    | property p => exact info.fieldSlot_append_other hnone (hms p List.mem_cons_self) _
    | _ => exact hnone

/-- Every property has a slot. -/
theorem MembersDeclared.slots (h : MembersDeclared info s ms info' t) {p : Property}
    (hp : .property p ∈ ms) : ∃ slot, info'.fieldSlot? p.name = some slot := by
  induction h with
  | nil info s => exact absurd hp List.not_mem_nil
  | @cons info _ _ s _ _ _ _ hfirst hrest ih =>
    rcases List.mem_cons.mp hp with rfl | hp
    · cases hfirst with
      | property p =>
        cases hold : info.fieldSlot? p.name with
        | some slot => exact ⟨slot, hrest.fieldSlot_eq (info.fieldSlot_append_old hold _)⟩
        | none => exact ⟨_, hrest.fieldSlot_eq (info.fieldSlot_append_new hold _)⟩
      | nothing _ _ _ hproperty => exact (hproperty p rfl).elim
    · exact ih hp

/-- **Both ways lead to one slot** where a property is the only one of its name and the last member
that takes its key. -/
theorem MembersDeclared.leads {before after : List Member} {p : Property}
    (h : MembersDeclared info s (before ++ .property p :: after) info' t)
    (hnone : info.fieldSlot? p.name = none) (hbefore : ∀ p', .property p' ∈ before → p'.name ≠ p.name)
    (hafter : ∀ m ∈ after, m.offered? ≠ some p.name) :
    ∃ slot, info'.fieldSlot? p.name = some slot ∧
      t.symbols.lookup (memberKey info'.name p.name) =
        some ⟨memberKey info'.name p.name, slot, .field, none⟩ := by
  obtain ⟨info₁, m, hfront, hbehind⟩ := h.append
  have hfree := hfront.fieldSlot_none hnone hbefore
  cases hbehind with
  | cons hfirst hrest =>
    have hname := hrest.name_eq
    cases hfirst with
    | property p =>
      let slot := m.nextId (some (methodScript info₁.name p.name))
      have hslot := info₁.fieldSlot_append_new hfree slot
      refine ⟨slot, hrest.fieldSlot_eq hslot, ?_⟩
      have hkept := hrest.meanings_eq (x := memberKey info₁.name p.name) fun name hin heq => ?_
      · rw [hname, SymbolTable.lookup_congr hkept]
        exact SymbolTable.lookup_register_self _ ⟨memberKey info₁.name p.name, slot, .field, none⟩
      · obtain ⟨m', hm', hoffered⟩ := List.mem_filterMap.mp hin
        exact hafter m' hm' (memberKey_inj heq ▸ hoffered)
    | nothing _ _ _ hproperty => exact (hproperty p rfl).elim

end Declaring

/-! ## Keys of a single class -/

section Finding

variable {T : DeclTable} {sts : List Stmt} {c : ClassDecl} {info : ClassInfo} {s t : Session}

/-- No statement binds the key, and no other class has it. -/
structure DeclTable.Sole (T : DeclTable) (sts : List Stmt) (c : ClassDecl) (x : String) : Prop where
  bound : x ∉ stmtsBound T sts
  keys : ∀ d ∈ stmtClasses sts, d.id ≠ c.id → x ∉ T.keys d

/-- What is done after the class was declared spares such a key. -/
theorem DeclTable.Sole.spares {x : String} (h : T.Sole sts c x) {task : Task}
    (hpart : task.PartOf T (.stmts sts)) {table : DeclTable} (hinfo : table.class? c.id = some info) :
    task.Spares x T table where
  bound := fun hin => h.bound (hpart.bound hin)
  keys := fun d hd hnone => h.keys d (hpart.classes hd) fun heq => by
    rw [heq, hinfo] at hnone
    cases hnone

/-- All properties of the class have slots, and under the key of a leading property the table has the
slot of its field. -/
structure Surroundings.Finds (q : Surroundings) (T : DeclTable) (sts : List Stmt) (c : ClassDecl)
    (info : ClassInfo) : Prop where
  slots : ∀ p, .property p ∈ c.members → ∃ slot, info.fieldSlot? p.name = some slot
  leads : ∀ p before after, c.Leads p before after → T.Sole sts c (memberKey info.name p.name) →
    ∀ slot, info.fieldSlot? p.name = some slot →
      q.symbols.lookup (memberKey info.name p.name) =
        some ⟨memberKey info.name p.name, slot, .field, none⟩

theorem Surroundings.Finds.congr {q q' : Surroundings} (h : q.Finds T sts c info)
    (hsame : ∀ x, T.Sole sts c x → q'.symbols.lookup x = q.symbols.lookup x) :
    q'.Finds T sts c info where
  slots := h.slots
  leads := fun p before after hleads hsole slot hslot =>
    (hsame _ hsole).trans (h.leads p before after hleads hsole slot hslot)

theorem Runs.keeps_finds {task : Task} {log : List Event} {out : Emitted Flow} (h : Runs task s log out t)
    (hfit : task.Fit s.decls) (hend : t.decls.Sub T) (hpart : task.PartOf T (.stmts sts))
    (hinfo : s.decls.class? c.id = some info) (hs : s.Finds T sts c info) :
    t.Finds T sts c info ∧ ∀ q e, .lowers q e ∈ log → q.Finds T sts c info := by
  have hkept := fun x (hx : T.Sole sts c x) => h.meanings_eq hfit hend (hx.spares hpart hinfo)
  refine ⟨hs.congr fun x hx => ?_, fun q e hin => hs.congr fun x hx => ?_⟩
  · exact SymbolTable.lookup_congr (hkept x hx).1
  · exact (hkept x hx).2 q e hin

/-- A class that is declared is found, now or since it was declared before. -/
theorem ClassDeclared.finds (h : ClassDeclared s c t)
    (hknown : ∀ info, s.decls.class? c.id = some info → s.Finds T sts c info)
    (hinfo : t.decls.class? c.id = some info) : t.Finds T sts c info := by
  cases h with
  | known _ => exact hknown info hinfo
  | @fresh info' u _ _ hmembers =>
    rw [Session.recorded_class] at hinfo
    obtain rfl := Option.some.inj hinfo
    refine ⟨fun p hp => hmembers.slots hp, fun p before after hleads _ slot hslot => ?_⟩
    rw [hleads.members_eq] at hmembers
    obtain ⟨slot', hslot', hlookup⟩ := hmembers.leads rfl hleads.before hleads.after
    obtain rfl := Option.some.inj (hslot'.symm.trans hslot)
    exact hlookup

/-- The classes that the work begins with are found if they are declared. -/
def Task.Finds (task : Task) (T : DeclTable) (sts : List Stmt) (q : Surroundings) : Prop :=
  ∀ c, .classDef c ∈ task.heads → ∀ info, q.decls.class? c.id = some info → q.Finds T sts c info

/-- **Declaring a unit leads to its classes.** -/
theorem UnitDeclared.finds {rest : List Stmt} (h : UnitDeclared s rest t)
    (hnodup : (declIds rest).Nodup) (hfree : ∀ i ∈ declIds rest, s.decls[i]? = none)
    (hend : t.decls.Sub T) (hpart : (Task.stmts rest).PartOf T (.stmts sts)) :
    (Task.stmts rest).Finds T sts t.toSurroundings := by
  intro c hin info hinfo
  refine h.settles_class (I := fun m => m.Finds T sts c info) hnodup hfree hend hpart hin hinfo
    (fun hdeclared _ hnone hn => ?_) fun hdeclared _ hend' hpart' hm hfinds => ?_
  · refine hdeclared.finds (fun _ hknown => ?_) hn
    cases hnone.symm.trans hknown
  · exact hfinds.congr fun x hx =>
      SymbolTable.lookup_congr (hdeclared.spares hend' (hx.spares hpart' hm))

namespace Task.Finds

variable {task : Task} {q : Surroundings}

/-- Nothing is declared of what stands inside a body. -/
theorem of_free {body : List Stmt} (h : ∀ i ∈ declIds body, q.decls[i]? = none) :
    (Task.stmts body).Finds T sts q := by
  intro c hc info hinfo
  rw [DeclTable.class?_none (h c.id (mem_declIds_of_class hc))] at hinfo
  cases hinfo

theorem of_nil (h : task.heads = []) : task.Finds T sts q := by
  intro c hc
  rw [h] at hc
  exact absurd hc List.not_mem_nil

end Task.Finds

/-- Every piece of the work on a unit finds the classes that it begins with. -/
theorem Piece.Premise.finds {u : CompilationUnit} {log : List Event} {e : Session} {p p' : Piece}
    (h : Premise p p') (hp : p.Sound u log e)
    (hfinds : p.task.Finds e.decls u.statements p.start.toSurroundings) :
    p'.task.Finds e.decls u.statements p'.start.toSurroundings := by
  obtain ⟨-, hfit, hpart, -, hsub, -, -⟩ := hp
  cases h with
  | first hsplit hfirst hrest =>
    cases Task.splits hsplit with
    | stmts st others =>
      intro c hc
      obtain rfl := List.mem_singleton.mp hc
      exact hfinds c List.mem_cons_self
    | _ => exact .of_nil rfl
  | @rest task first rest s t _ _ _ _ _ hsplit hfirst hrest =>
    have hhead := (Task.PartOf.split hsplit).1.trans hpart
    have hend := (hrest.sub (hfit.rest hsplit hfirst)).trans hsub
    cases Task.splits hsplit with
    | stmts st others =>
      intro c hin info hinfo
      have hinfo' : s.decls.class? c.id = some info := (hfirst.class?_behind hfit hin).symm.trans hinfo
      exact (hfirst.keeps_finds (hfit.first hsplit) hend hhead hinfo'
        (hfinds c (List.mem_cons_of_mem _ hin) info hinfo')).1
    | _ => exact .of_nil rfl
  | returned rest hfirst =>
    intro c hc
    obtain rfl := List.mem_singleton.mp hc
    exact hfinds c List.mem_cons_self
  | inside hinside _ =>
    cases Task.encloses hinside with
    | block => exact .of_free hfit.ready.inner
    | bindings => exact .of_nil rfl
  | script hopens _ =>
    cases hopens with
    | callable => exact .of_free hfit.ready.inner
    | fields => exact .of_nil rfl
  | _ => exact .of_nil rfl

end Finding

/-! ## The script of a class -/

/-- Somewhere in the script the value of the expression is computed and stored in the slot. -/
def Stores (log : List Event) (slot : String) (e : Expr) (script : List Command) : Prop :=
  ∃ before commands after q v fx gx, script = before ++ (commands ++ [Lower.assign q slot v]) ++ after ∧
    .lowers q e ∈ log ∧ (Lower.expr q e).run fx = (.ok ⟨commands, some v⟩, gx)

/-- The script of the class stores the value in the slot, unless the script was replaced. -/
def Session.Initializes (t : Session) (log : List Event) (info : ClassInfo) (slot : String) (e : Expr) :
    Prop :=
  t.Twice (classScript info.name) ∨
    ∃ script, t.scripts[classScript info.name]? = some script ∧ Stores log slot e script

namespace Stores

variable {log log' : List Event} {slot : String} {e : Expr} {script : List Command}

theorem mono (h : Stores log slot e script) (hlog : log ⊆ log') : Stores log' slot e script := by
  obtain ⟨before, commands, after, q, v, fx, gx, hscript, hin, hrun⟩ := h
  exact ⟨before, commands, after, q, v, fx, gx, hscript, hlog hin, hrun⟩

/-- The script may be part of a longer one. -/
theorem within (h : Stores log slot e script) (front behind : List Command) :
    Stores log slot e (front ++ script ++ behind) := by
  obtain ⟨before, commands, after, q, v, fx, gx, rfl, hin, hrun⟩ := h
  refine ⟨front ++ before, commands, after ++ behind, q, v, fx, gx, ?_, hin, hrun⟩
  simp only [List.append_assoc]

end Stores

section Storing

variable {info : ClassInfo} {ms : List Member} {s t : Session} {log : List Event} {out : Emitted Flow}
  {p : Property} {e : Expr} {slot : String} (he : p.initializer = some e)
  (hslot : info.fieldSlot? p.name = some slot)

include he hslot

/-- The initializer of a property goes into the first slot of its name. -/
theorem Runs.field_stores (h : Runs (.field info (.property p)) s log out t) :
    Stores log slot e out.commands := by
  cases h with
  | idle h =>
    cases h with
    | field _ _ hnone => exact absurd hslot (hnone p e slot rfl he)
  | seq hsplit _ _ => cases hsplit
  | inside hinside _ => cases hinside
  | script hopens _ => cases hopens
  | evaluates htask heval =>
    cases htask with
    | field he' hslot' =>
      cases he.symm.trans he'
      cases hslot.symm.trans hslot'
      cases heval with
      | stored _ hrun =>
        exact ⟨[], _, [], _, _, _, _, (List.append_nil _).symm, List.mem_cons_self, hrun⟩

theorem Runs.fields_store (h : Runs (.fields info ms) s log out t) (hp : .property p ∈ ms) :
    Stores log slot e out.commands := by
  induction ms generalizing s log out with
  | nil => exact absurd hp List.not_mem_nil
  | cons m rest ih =>
    cases h with
    | idle h => cases h
    | @seq _ _ _ _ _ _ _ _ commands out hsplit hfirst hrest =>
      cases hsplit
      rcases List.mem_cons.mp hp with rfl | hp
      · have hhere := (hfirst.field_stores he hslot).within [] out.commands
        exact hhere.mono (List.subset_append_left _ _)
      · have hlater := (ih hrest hp).within commands []
        rw [List.append_nil] at hlater
        exact hlater.mono (List.subset_append_right _ _)
    | inside hinside _ => cases hinside
    | evaluates htask _ => cases htask
    | script hopens _ => cases hopens

/-- **The script of a class stores the values of its initializers.** -/
theorem Runs.initializes {scope : ClassScope} {line : Nat}
    (h : Runs (.fieldsScript info scope ms line) s log out t) (hp : .property p ∈ ms) :
    t.Initializes log info slot e := by
  cases h with
  | idle h => cases h
  | seq hsplit _ _ => cases hsplit
  | inside hinside _ => cases hinside
  | evaluates htask _ => cases htask
  | @script _ _ u _ log out hopens hrun =>
    cases hopens with
    | fields =>
      have hstores := (hrun.fields_store he hslot hp).within (declarations u.allocator.preamble ++ []) []
      rw [List.append_nil] at hstores
      exact .inr ⟨_, Session.getElem?_stored _ _ _ _, hstores.mono (List.subset_append_right _ _)⟩

end Storing

theorem Session.Initializes.mono {t u : Session} {log log' : List Event} {info : ClassInfo} {slot : String}
    {e : Expr} (h : t.Initializes log info slot e) (hlog : log ⊆ log') (hretains : Retains t u) :
    u.Initializes log' info slot e := by
  rcases h with htwice | ⟨script, hscript, hstores⟩
  · exact .inl (htwice.mono hretains.warnings)
  · rcases hretains.scripts _ _ hscript with hkept | htwice
    · exact .inr ⟨script, hkept, hstores.mono hlog⟩
    · exact .inl htwice

/-- A class that is no mere declaration is declared, and its members are lowered. -/
theorem Runs.class_members {d : ClassDecl} {s t : Session} {log : List Event} {out : Emitted Flow}
    (h : Runs (.stmt (.classDef d)) s log out t) (hfit : (Task.stmt (.classDef d)).Fit s.decls)
    (hown : (d.isDeclared || d.isAbstract) = false) :
    ∃ info m out', ClassDeclared s d m ∧ m.decls.class? d.id = some info ∧
      Runs (.members info ⟨info.name, d.parent⟩ d.members d.line) m log out' t := by
  cases h with
  | idle h =>
    cases h with
    | foreign hforeign =>
      rw [hown] at hforeign
      cases hforeign
    | taken hnone hcontains =>
      -- a class is recorded under its own id or not at all
      rcases hfit.ready.filed with hfree | ⟨-, info, hinfo, -⟩
      · have hrecord := hfree d.id List.mem_cons_self
        rw [Std.TreeMap.contains_eq_isSome_getElem?, hrecord] at hcontains
        cases hcontains
      · cases hnone.symm.trans hinfo
  | seq hsplit _ _ => cases hsplit
  | inside hinside _ => cases hinside
  | evaluates htask _ => cases htask
  | script hopens _ => cases hopens
  | classDef _ hdeclared hinfo hmembers => exact ⟨_, _, _, hdeclared, hinfo, hmembers⟩

/-! ## Units -/

namespace Session

variable {s : Session} {u : CompilationUnit} {c : Compilation}

/-- **The slot that is initialized and the slot that is read.**  A class is lowered while a unit is
compiled.  The script of the class stores the value of each initializer in the slot that the first field
of the name has, unless that script is reported as replaced.  If the property is the only one of its
name, no method behind it has the name, and nothing else in the unit takes its key, then `this.p` is that
slot, everywhere in the class. -/
theorem field_initialized {document : Json.Value} {fallback : String}
    (hload : Document.load document fallback = .ok u) (hcompile : (s.compile u).1 = .ok c) {d : ClassDecl}
    (hown : (d.isDeclared || d.isAbstract) = false) {s' t' : Session} {log : List Event} {out : Emitted Flow}
    (hdoes : s.Does u ⟨.stmt (.classDef d), s', log, out, t'⟩) :
    ∃ info, (s.compile u).2.decls.class? d.id = some info ∧
      ∀ p e, .property p ∈ d.members → p.initializer = some e →
        ∃ slot, info.fieldSlot? p.name = some slot ∧
          ((∃ w ∈ c.warnings, w.message = producedTwice (classScript info.name)) ∨
            ∃ script, c.scripts[classScript info.name]? = some script ∧ Stores log slot e script) ∧
          ∀ before after, d.Leads p before after →
            (s.compile u).2.decls.Sole u.statements d (memberKey info.name p.name) →
            ∀ q e', .lowers q e' ∈ log → q.scope.enclosing = some ⟨info.name, d.parent⟩ →
              q.ThisMember p.name slot none := by
  have hids := Document.load_nodup hload
  obtain ⟨body, t, hlowers, hsound, hfinds⟩ := hdoes.inherits
    (J := fun e p => p.task.Finds e.decls u.statements p.start.toSurroundings) hids
    (fun _ t hlowers => hlowers.declared.finds hids (fun i _ => s.begin_free u i)
      (hlowers.run.sub (declared_fit hids hlowers.declared)) (.refl _))
    fun _ _ _ hsound hpremise => hpremise.finds hsound
  rw [hlowers.decls_eq]
  have hfit : (Task.stmt (.classDef d)).Fit s'.decls := hsound.fit
  have hsub : t'.decls.Sub t.decls := hsound.sub
  obtain ⟨info, m, out', hdeclared, hinfo, hmembers⟩ := hsound.run.class_members hfit hown
  have hfit' := hfit.classDef hdeclared hinfo ⟨info.name, d.parent⟩ d.line
  have hinner : (Task.members info ⟨info.name, d.parent⟩ d.members d.line).PartOf t.decls
      (.stmt (.classDef d)) := .classDef d d.line
  have hpart := hinner.trans hsound.partOf
  have hfound : m.Finds t.decls u.statements d info := hdeclared.finds (hfinds d List.mem_cons_self) hinfo
  have hinside := (hmembers.keeps_finds hfit' hsub hpart hinfo hfound).2
  obtain ⟨log₁, log₂, _, _, _, rfl, hfields, hbodies⟩ := hmembers.parts rfl rfl
  refine ⟨info, hsub.classInfo ((hmembers.sub hfit').classInfo hinfo), fun p e hp he => ?_⟩
  obtain ⟨slot, hslot⟩ := hfound.slots p hp
  refine ⟨slot, hslot, ?_, fun before after hleads hsole q e' hin hscope => ?_⟩
  · obtain rfl := Except.ok.inj (hcompile.symm.trans hlowers.result)
    exact (hfields.initializes he hslot hp).mono (List.subset_append_left _ _)
      ((hbodies.grows.toRetains.trans hsound.retains).trans (t.withPrimary_retains u.context body.commands))
  · exact .of_lookup hscope ((hinside q e' hin).leads p before after hleads hsole slot hslot)

/-! A class with one property, and one with a second property of the same name. -/

/-- A property that is initialized with a number. -/
def propertyNode (isStatic : Bool) (name value : String) : Json.Value :=
  namedNode "PropertyDeclaration" name [("static", .bool isStatic),
    ("initializer", .object [("kind", .string "NumericLiteral"), ("value", .string value)])]

/-- `class C { properties; m() { this.p = 3 } }` -/
def initializedDocument (properties : List Json.Value) : Json.Value :=
  .object [("statements", .array [namedNode "ClassDeclaration" "C" [("members", .array (properties ++ [
    namedNode "MethodDeclaration" "m" [("body", .array [ownNode "p" "3"])]]))]])]

/-- A number, and the property that is initialized with it. -/
def initializer (n : Int) : Expr := .number ⟨0, none⟩ (.ofInt n)

def initialized (isStatic : Bool) (n : Int) : Property := ⟨"p", some (initializer n), isStatic, 0⟩

/-- The method of the class. -/
def assigningMethod : Member :=
  .method ⟨0, some "m", [], some [.expression 0 (.binary ⟨0, none⟩
    (.member ⟨0, none⟩ (.this ⟨0, none⟩) "p") .assign (initializer 3))], false, 0⟩ false

/-- The class of the document. -/
def initializedClass (properties : List Property) : ClassDecl :=
  ⟨1, some "C", none, false, false, properties.map .property ++ [assigningMethod], 0⟩

/-- The unit of the document. -/
def initializedUnit (properties : List Property) : CompilationUnit where
  fileName := "main.ts"
  context := "main"
  statements := [.classDef (initializedClass properties)]
  declCount := 2

/-- The class with one property. -/
def plainDocument : Json.Value := initializedDocument [propertyNode false "p" "1"]

def plainClass : ClassDecl := initializedClass [initialized false 1]

def plainUnit : CompilationUnit := initializedUnit [initialized false 1]

/-- The class with two. -/
def pairedDocument : Json.Value :=
  initializedDocument [propertyNode true "p" "1", propertyNode false "p" "2"]

def pairedUnit : CompilationUnit := initializedUnit [initialized true 1, initialized false 2]

/-- One property: the method sees the slot that the script of the class stores the number in. -/
theorem field_initialized_single :
    ∃ c script q e, Document.load plainDocument "main.ts" = .ok plainUnit ∧
      (compile {} plainUnit).1 = .ok c ∧ c.warnings = [] ∧
      c.scripts["CCLASS"]? = some script ∧
      Stores (log {} plainUnit) "C_p_1" (initializer 1) script ∧
      .lowers q e ∈ log {} plainUnit ∧ q.scope.enclosing = some ⟨"C", none⟩ ∧
      q.ThisMember "p" "C_p_1" none := by
  have hload : Document.load plainDocument "main.ts" = .ok plainUnit := rfl
  obtain ⟨c, hc⟩ : ∃ c, (compile {} plainUnit).1 = .ok c := exists_compilation (by decide +kernel)
  have hwarnings : (compile {} plainUnit).1.toOption.map (·.warnings) = some [] := by decide +kernel
  rw [hc] at hwarnings
  have hnone : c.warnings = [] := Option.some.inj hwarnings
  have hrecord : ((compile {} plainUnit).2.decls.class? 1).map
      (fun info => (info.name, info.fieldSlot? "p")) = some ("C", some "C_p_1") := by
    decide +kernel
  have hany : (log {} plainUnit).any (loweredIn ⟨"C", none⟩) = true := by decide +kernel
  obtain ⟨event, hlog, hin⟩ := List.any_eq_true.mp hany
  cases event with
  | hoists id => cases hin
  | lowers q e =>
    have hscope : q.scope.enclosing = some ⟨"C", none⟩ := of_decide_eq_true hin
    obtain ⟨out, t, hlowers⟩ := exists_lowers hc
    obtain ⟨out', m, hpremise⟩ := Piece.Premise.single (.classDef plainClass) hlowers.run
    obtain ⟨info, hinfo, hfields⟩ := field_initialized hload hc (by decide)
      ⟨out, t, hlowers, .single hpremise⟩
    rw [show plainClass.id = 1 from rfl] at hinfo
    rw [hinfo] at hrecord
    obtain ⟨hname, hslot⟩ := Prod.mk.inj (Option.some.inj hrecord)
    obtain ⟨slot, hfound, hstores, hread⟩ := hfields (initialized false 1) (initializer 1)
      List.mem_cons_self rfl
    obtain rfl := Option.some.inj (hfound.symm.trans hslot)
    have hleads : plainClass.Leads (initialized false 1) [] [assigningMethod] :=
      ⟨rfl, fun _ h => absurd h List.not_mem_nil, by decide⟩
    have hsole : (compile {} plainUnit).2.decls.Sole plainUnit.statements plainClass
        (memberKey info.name (initialized false 1).name) := by
      rw [hname]
      exact ⟨by decide +kernel, by decide +kernel⟩
    have hthis := hread [] [assigningMethod] hleads hsole q e hlog (by rw [hname]; exact hscope)
    rcases hstores with ⟨w, hw, -⟩ | ⟨script, hscript, hstores⟩
    · rw [hnone] at hw
      exact absurd hw List.not_mem_nil
    · rw [hname] at hscript
      exact ⟨c, script, q, e, hload, hc, hnone, hscript, hstores, hlog, hscope, hthis⟩

/-- **A static property and one of the same name.**  The script of the class stores the number of the
last one in the slot of the first one, and the method assigns to the slot of the last one. -/
theorem field_missed :
    ∃ c, Document.load pairedDocument "main.ts" = .ok pairedUnit ∧
      (compile {} pairedUnit).1 = .ok c ∧
      c.scripts["CCLASS"]? = some [.declare "C_p_1", .declare "C_p_2",
        .set (some "main") "C_p_1" "1", .set (some "main") "C_p_1" "2"] ∧
      c.scripts["C_m"]? = some [.declare "register1", .set (some "main") "register1" "3",
        .operation (some "main") "C_p_2" .assign "register1"] := by
  obtain ⟨c, hc⟩ : ∃ c, (compile {} pairedUnit).1 = .ok c := exists_compilation (by decide +kernel)
  have hscripts : (compile {} pairedUnit).1.toOption.map
      (fun c => (c.scripts["CCLASS"]?, c.scripts["C_m"]?)) =
    some (some [.declare "C_p_1", .declare "C_p_2", .set (some "main") "C_p_1" "1",
        .set (some "main") "C_p_1" "2"],
      some [.declare "register1", .set (some "main") "register1" "3",
        .operation (some "main") "C_p_2" .assign "register1"]) := by
    decide +kernel
  rw [hc] at hscripts
  obtain ⟨hfields, hmethod⟩ := Prod.mk.inj (Option.some.inj hscripts)
  exact ⟨c, rfl, hc, hfields, hmethod⟩

end Session

end FrameScript
