/-
  What a document can hold.

  Not every unit can be loaded.  The loader asks each method for its name, although the tree would do
  without; so the classes of a loaded unit have methods with names only (`load_named`).  Nothing else in
  the tree says so, and lowering would pass over a method without a name in silence.

  `Loads P m` says that what the loader `m` gives has the property `P`.
-/
import FrameScript.Proofs.Identities
import FrameScript.Proofs.Landing

namespace FrameScript

open Source

/-- All methods have names. -/
def Source.MethodsNamed (ms : List Member) : Prop :=
  ∀ f isStatic, .method f isStatic ∈ ms → f.name ≠ none

namespace Document

open Json (Value Fields)

/-! ## Loaders and what they give -/

section Loaders

variable {α β : Type}

def Loads (P : α → Prop) (m : Loader α) : Prop :=
  ∀ (c c' : Cursor) (a : α), m.run c = .ok (a, c') → P a

namespace Loads

variable {P : α → Prop} {Q : β → Prop}

theorem pure {a : α} (h : P a) : Loads P (Pure.pure a : Loader α) := by
  intro c c' b hrun
  cases hrun
  exact h

theorem throw (e : LoadError) : Loads P (throw e : Loader α) := by
  intro c c' b hrun
  cases hrun

theorem bind {m : Loader α} {f : α → Loader β} (hm : Loads P m) (hf : ∀ a, P a → Loads Q (f a)) :
    Loads Q (m >>= f) := by
  intro c c' b h
  obtain ⟨a, c₁, h₁, h₂⟩ := bind_ok h
  exact hf a (hm c c₁ a h₁) c₁ c' b h₂

/-- What was loaded before does not matter. -/
theorem after {m : Loader α} {f : α → Loader β} (hf : ∀ a, Loads Q (f a)) : Loads Q (m >>= f) :=
  bind (P := fun _ => True) (fun _ _ _ _ => trivial) fun a _ => hf a

theorem lift {action : Builder α} (h : ∀ c : Cursor, P (action c).1) :
    Loads P (liftM action : Loader α) := by
  intro c c' a hrun
  have heq : action c = (a, c') := Except.ok.inj hrun
  have hc := h c
  rw [heq] at hc
  exact hc

theorem invalid (kind field expected : String) :
    Loads P (Document.invalid kind field expected : Loader α) :=
  after fun _ => throw _

end Loads

end Loaders

theorem loads_text (node : Fields) (kind field : String) :
    Loads (fun s => node.get? field = some (.string s)) (text node kind field) := by
  unfold text
  split
  · next s hs => exact .pure hs
  · exact .invalid _ _ _
  · exact .after fun _ => .throw _

theorem loads_text? (node : Fields) (kind field : String) :
    Loads (fun name => ∀ s, node.get? field = some (.string s) → name = some s)
      (text? node kind field) := by
  unfold text?
  split
  · next s hs => exact .pure fun s' hs' => by cases hs.symm.trans hs'; rfl
  · next hnull => exact .pure fun s hs => by cases hnull.symm.trans hs
  · next hnone => exact .pure fun s hs => by cases hnone.symm.trans hs
  · exact .invalid _ _ _

/-! ## Methods have names -/

/-- All methods of the classes have names. -/
def AllNamed (classes : List ClassDecl) : Prop := ∀ c ∈ classes, MethodsNamed c.members

theorem AllNamed.nil : AllNamed [] := fun _ hc => absurd hc List.not_mem_nil

theorem AllNamed.append {cs ds : List ClassDecl} (hcs : AllNamed cs) (hds : AllNamed ds) :
    AllNamed (cs ++ ds) := by
  intro c hc
  rcases List.mem_append.mp hc with hc | hc
  · exact hcs c hc
  · exact hds c hc

/-- The classes inside the body, if there is one. -/
def BodyNamed (body : Option (List Stmt)) : Prop := ∀ sts, body = some sts → AllNamed (stmtClasses sts)

theorem BodyNamed.classes {f : FunctionDecl} (h : BodyNamed f.body) : AllNamed f.classes := by
  obtain ⟨id, name, params, body, isAsync, line⟩ := f
  cases body with
  | none => exact .nil
  | some sts => exact h sts rfl

/-- The classes inside the members, and the members themselves. -/
structure MembersNamed (ms : List Member) : Prop where
  methods : MethodsNamed ms
  classes : AllNamed (memberClasses ms)

theorem MembersNamed.nil : MembersNamed [] := ⟨fun _ _ hf => absurd hf List.not_mem_nil, .nil⟩

/-- One member at a time. -/
theorem MembersNamed.cons {m : Member} {ms : List Member} (hm : MembersNamed [m])
    (hms : MembersNamed ms) : MembersNamed (m :: ms) where
  methods := by
    intro f isStatic hf
    rcases List.mem_cons.mp hf with hf | hf
    · exact hm.methods f isStatic (hf ▸ List.mem_cons_self)
    · exact hms.methods f isStatic hf
  classes := by
    have hclasses := hm.classes
    rw [memberClasses, memberClasses, List.append_nil] at hclasses
    exact hclasses.append hms.classes

/-- A member that is no method. -/
theorem MembersNamed.single {m : Member} (hm : ∀ f isStatic, m ≠ .method f isStatic)
    (hclasses : AllNamed m.classes) : MembersNamed [m] where
  methods := fun f isStatic hf => absurd (List.mem_singleton.mp hf).symm (hm f isStatic)
  classes := by
    rw [memberClasses, memberClasses, List.append_nil]
    exact hclasses

theorem MembersNamed.method {f : FunctionDecl} (hname : f.name ≠ none) (hbody : BodyNamed f.body)
    (isStatic : Bool) : MembersNamed [.method f isStatic] where
  methods := by
    intro f' isStatic' hf
    cases List.mem_singleton.mp hf
    exact hname
  classes := by
    rw [memberClasses, memberClasses, List.append_nil]
    exact hbody.classes

theorem loads_function {node : Fields} {kind : String} {line : Nat}
    {body : Loader (Option (List Stmt))} (hbody : Loads BodyNamed body) :
    Loads (fun f => BodyNamed f.body ∧ ∀ s, node.get? "name" = some (.string s) → f.name ≠ none)
      (function node kind line body) := by
  unfold function
  refine .bind (loads_text? node kind "name") fun name hname => ?_
  refine .after fun isAsync => .after fun params => .bind hbody fun loaded hloaded => ?_
  refine .after fun _ => .lift fun c => ⟨hloaded, fun s hs => ?_⟩
  show name ≠ none
  rw [hname s hs]
  exact Option.some_ne_none s

theorem loads_classDef {node : Fields} {kind : String} {line : Nat} {members : Loader (List Member)}
    (hmembers : Loads MembersNamed members) :
    Loads (fun c => AllNamed c.classes) (classDef node kind line members) := by
  unfold classDef
  refine .after fun name => .after fun parent => .after fun isDeclared => .after fun isAbstract => ?_
  refine .bind hmembers fun loaded hloaded => .after fun _ => .lift fun cursor => ?_
  intro c hc
  rcases List.mem_cons.mp hc with rfl | hc
  · exact hloaded.methods
  · exact hloaded.classes c hc

mutual

theorem loads_stmt (inherited : Nat) :
    ∀ value, Loads (fun st => AllNamed st.classes) (stmt inherited value)
  | .object node => by
    rw [stmt]
    refine .after fun (kind, line) => ?_
    have hstmts := fun field => loads_stmtsField kind field line node
    have hbody := loads_bodyField kind line node
    have hmembers := loads_membersField kind line node
    dsimp only
    split
    · exact .bind (hstmts _) fun body hbody => .after fun _ => .lift fun _ => hbody
    · exact .after fun _ => .lift fun _ => .nil
    · exact .after fun _ => .after fun _ => .after fun _ => .lift fun _ => .nil
    · exact .after fun _ => .after fun _ => .lift fun _ => .nil
    · exact .after fun _ => .after fun _ => .lift fun _ => .nil
    · exact .bind (loads_function hbody) fun f hf => .pure hf.1.classes
    · exact .bind (loads_classDef hmembers) fun c hc => .pure hc
    · exact .lift fun _ => .nil
    · exact .lift fun _ => .nil
    · exact .lift fun _ => .nil
    · exact .lift fun _ => .nil
  | .null | .bool _ | .number _ | .string _ | .array _ => .throw _

theorem loads_stmtsField (kind field : String) (line : Nat) :
    ∀ node, Loads (fun body => AllNamed (stmtClasses body)) (stmtsField kind field line node)
  | [] => .pure .nil
  | (name, value) :: rest => by
    have hrest := loads_stmtsField kind field line rest
    rw [stmtsField.eq_def]
    dsimp only
    split
    · cases value with
      | array values => exact loads_stmts line values
      | null => exact .pure .nil
      | _ => exact .invalid _ _ _
    · exact hrest

theorem loads_stmts (line : Nat) :
    ∀ values, Loads (fun body => AllNamed (stmtClasses body)) (stmts line values)
  | [] => .pure .nil
  | value :: rest => by
    have hvalue := loads_stmt line value
    have hrest := loads_stmts line rest
    rw [stmts]
    exact .bind hvalue fun st hst => .bind hrest fun others hothers => .pure (hst.append hothers)

theorem loads_bodyField (kind : String) (line : Nat) :
    ∀ node, Loads BodyNamed (bodyField kind line node)
  | [] => .pure nofun
  | (name, value) :: rest => by
    have hrest := loads_bodyField kind line rest
    rw [bodyField.eq_def]
    dsimp only
    split
    · cases value with
      | array values =>
        refine .bind (loads_stmts line values) fun body hbody => .pure fun sts hsts => ?_
        cases hsts
        exact hbody
      | null => exact .pure nofun
      | _ => exact .invalid _ _ _
    · exact hrest

theorem loads_membersField (kind : String) (line : Nat) :
    ∀ node, Loads MembersNamed (membersField kind line node)
  | [] => .pure .nil
  | (name, value) :: rest => by
    have hrest := loads_membersField kind line rest
    rw [membersField.eq_def]
    dsimp only
    split
    · cases value with
      | array values => exact loads_members line values
      | null => exact .pure .nil
      | _ => exact .invalid _ _ _
    · exact hrest

theorem loads_members (line : Nat) : ∀ values, Loads MembersNamed (members line values)
  | [] => .pure .nil
  | value :: rest => by
    have hvalue := loads_member line value
    have hrest := loads_members line rest
    rw [members]
    exact .bind hvalue fun m hm => .bind hrest fun others hothers => .pure (hm.cons hothers)

theorem loads_member (inherited : Nat) :
    ∀ value, Loads (fun m => MembersNamed [m]) (member inherited value)
  | .object node => by
    rw [member]
    refine .after fun (kind, line) => ?_
    have hstmts := fun field => loads_stmtsField kind field line node
    have hbody := loads_bodyField kind line node
    dsimp only
    split
    · refine .after fun isStatic => .bind (loads_text node _ "name") fun s hs => ?_
      exact .bind (loads_function hbody) fun f hf => .pure (.method (hf.2 s hs) hf.1 isStatic)
    · refine .after fun params => .bind (hstmts _) fun body hbody => .after fun _ => ?_
      exact .lift fun _ => .single nofun hbody
    · refine .after fun name => .after fun isStatic => .after fun initializer => .after fun _ => ?_
      exact .lift fun _ => .single nofun .nil
    · exact .lift fun _ => .single nofun .nil
  | .null | .bool _ | .number _ | .string _ | .array _ => .throw _

end

/-- **The methods of a loaded unit have names.** -/
theorem load_named {document : Value} {fallback : String} {u : CompilationUnit}
    (h : load document fallback = .ok u) : AllNamed (stmtClasses u.statements) := by
  obtain ⟨fields, c, hrun, -⟩ := load_statements h
  exact loads_stmtsField _ _ _ fields {} c u.statements hrun

end Document

end FrameScript
