/-
  The lines of loaded nodes and of load errors.

  The loader keeps a line in its cursor.  Every node that it enters moves the cursor, and what is built or
  refused takes the line on which the cursor stands; some of it takes the line of its node from an argument
  instead.  So for each field of each kind of node one has to know where the cursor stands when the field
  is read.  The triples of the loaders say this; they follow the program text, one for each.

  The nodes of a loaded unit have the lines of their places (`load_lines`), and an error reports a line
  that its field determines (`load_errors`).
-/
import FrameScript.Proofs.Faults

namespace FrameScript

namespace Document

open Json (Value Fields)
open Source

/-! ## What stands at a place -/

section Parts

variable {document : Value} {here : Place} {node : Fields} {field : String} {line inherited : Nat}
  {value : Value}

/-- What stands in a field of the node at a place: a node there inherits the line. -/
structure FieldAt (document : Value) (here : Place) (node : Fields) (field : String) (line : Nat) :
    Prop where
  stands : nodeAt? skippingDeclarators document here = some node
  spot : ∀ value, node.get? field = some value →
    spot? skippingDeclarators document (here ++ [.field field]) = some ⟨value, line, true⟩

theorem FieldAt.of_spot {handsDown : Bool} (field : String) (hreading : skippingDeclarators field = true)
    (h : spot? skippingDeclarators document here = some ⟨.object node, inherited, handsDown⟩) :
    FieldAt document here node field (if handsDown then nodeLine node inherited else inherited) where
  stands := nodeAt?_eq h
  spot := fun _ hvalue => hreading ▸ spot?_field h hvalue

/-- The part of a node that is looked through still has the field: it is found there, or behind the first
field. -/
theorem get?_cons {name : String} {rest : Fields} {found : Option Value}
    (h : Fields.get? ((name, value) :: rest) field = found) :
    (name = field → found = some value) ∧ (name ≠ field → rest.get? field = found) := by
  rw [Fields.get?] at h
  exact ⟨fun heq => by rw [← h, if_pos heq], fun hne => by rw [← h, if_neg hne]⟩

/-- The values that stand in a row at a place, from the given number on: a node there inherits the line. -/
def ItemsAt (document : Value) (here : Place) (line first : Nat) (values : List Value) : Prop :=
  ∀ i value, values[i]? = some value →
    spot? skippingDeclarators document (here ++ [.item (first + i)]) = some ⟨value, line, true⟩

theorem ItemsAt.of_array {values : List Value}
    (h : spot? skippingDeclarators document here = some ⟨.array values, line, true⟩) :
    ItemsAt document here line 0 values := fun i value hvalue => by
  rw [Nat.zero_add]
  exact spot?_item h hvalue

theorem ItemsAt.head {first : Nat} {rest : List Value}
    (h : ItemsAt document here line first (value :: rest)) :
    spot? skippingDeclarators document (here ++ [.item first]) = some ⟨value, line, true⟩ :=
  h 0 value rfl

theorem ItemsAt.tail {first : Nat} {rest : List Value}
    (h : ItemsAt document here line first (value :: rest)) :
    ItemsAt document here line (first + 1) rest := fun i v hv => by
  rw [Nat.add_assoc, Nat.add_comm 1 i]
  exact h (i + 1) v hv

end Parts

/-! ## Nodes in a row -/

section Rows

variable {document : Value} {nodes nodes' : List (Place × Nat)} {x : Place × Nat} {line : Nat}

/-- The nodes of a tree have the lines of their places. -/
abbrev AllStamped (document : Value) (nodes : List (Place × Nat)) : Prop :=
  ∀ x ∈ nodes, Stamped document x

theorem AllStamped.nil : AllStamped document [] := fun _ hx => absurd hx List.not_mem_nil

theorem AllStamped.cons (hx : Stamped document x) (h : AllStamped document nodes) :
    AllStamped document (x :: nodes) :=
  List.forall_mem_cons.mpr ⟨hx, h⟩

theorem AllStamped.append (h : AllStamped document nodes) (h' : AllStamped document nodes') :
    AllStamped document (nodes ++ nodes') :=
  List.forall_mem_append.mpr ⟨h, h'⟩

/-- The last of the nodes has this line. -/
def Ends (nodes : List (Place × Nat)) (line : Nat) : Prop := ∃ last, nodes.getLast? = some (last, line)

theorem Ends.single {here : Place} : Ends [(here, line)] line := ⟨here, rfl⟩

theorem Ends.append (nodes : List (Place × Nat)) (h : Ends nodes' line) : Ends (nodes ++ nodes') line := by
  obtain ⟨last, hlast⟩ := h
  exact ⟨last, by rw [List.getLast?_append, hlast]; rfl⟩

theorem Ends.cons (x : Place × Nat) (h : Ends nodes line) : Ends (x :: nodes) line := h.append [x]

end Rows

/-! ## Expressions -/

section Expressions

variable {document : Value}

/-- What the loader of an expression at a place does.  It leaves the cursor on the line of the node that
it entered last. -/
abbrev MeetsExpr (document : Value) (c : Cursor) (here : Place) (m : Loader Expr) : Prop :=
  Meets document c m fun e c' => AllStamped document (e.nodes here) ∧ Ends (e.nodes here) c'.line

/-- A node with one expression in it. -/
theorem MeetsExpr.around {c : Cursor} {here : Place} {field : String} {line : Nat} {m : Loader Expr}
    {make : Expr → Expr} (hown : Stamped document (here, line))
    (hm : MeetsExpr document c (here ++ [.field field]) m)
    (hmake : ∀ e, (make e).nodes here = (here, line) :: e.nodes (here ++ [.field field])) :
    MeetsExpr document c here (do return make (← m)) :=
  .bind hm fun e _ he => .pure (hmake e ▸ ⟨.cons hown he.1, he.2.cons _⟩)

mutual

theorem expr_meets (here : Place) (inherited : Nat) :
    ∀ value, spot? skippingDeclarators document here = some ⟨value, inherited, true⟩ →
      ∀ c, MeetsExpr document c here (expr inherited value)
  | .object node => by
    intro hspot c
    rw [expr]
    refine .bind (enter_meets "expression" hspot) fun (kind, line) c ⟨hkind, hc⟩ => ?_
    obtain rfl : line = nodeLine node inherited := hkind
    have hnode := nodeAt?_eq hspot
    have hown : Stamped document (here, nodeLine node inherited) := lineAt?_eq hspot
    have hfield := fun field hreading hread =>
      exprField_meets kind hread hown (.of_spot field hreading hspot) node rfl
    refine .read (text?_meets hnode (.own rfl (hc ▸ hown)) kind) fun type => ?_
    have htext : ∀ field, readLate field = false →
        Meets document c (text node kind field) fun _ c' => c' = c :=
      fun field hread => text_meets hnode (.own hread (hc ▸ hown)) kind
    have hleaf : AllStamped document [(here, nodeLine node inherited)] ∧
        Ends [(here, nodeLine node inherited)] c.line := ⟨.cons hown .nil, hc ▸ .single⟩
    -- a callee and its arguments
    have hcall : ∀ make : Expr → List Expr → Expr, (∀ e es, (make e es).nodes here =
          (here, nodeLine node inherited) :: (e.nodes (here ++ [.field "expression"]) ++
            exprsNodes (here ++ [.field "arguments"]) 0 es)) →
        MeetsExpr document c here (do
          let callee ← exprField kind "expression" (nodeLine node inherited) node
          return make callee (← argumentsField kind (nodeLine node inherited) node)) := by
      intro make hmake
      refine .bind (hfield "expression" rfl rfl c).withRun fun callee c₁ ⟨hload, hcallee⟩ => ?_
      obtain ⟨last, hlast⟩ := hcallee.2
      have hline : Reported document here "arguments" c₁.line :=
        .callee hspot hload hlast (hcallee.1 _ (List.mem_of_getLast? hlast))
      refine .bind (arguments_meets kind (.of_spot _ rfl hspot) node rfl c₁ hline hcallee.2)
        fun args c₂ hargs => ?_
      exact .pure (hmake callee args ▸ ⟨.cons hown (hcallee.1.append hargs.1), hargs.2.cons _⟩)
    dsimp only
    split
    · exact .read (number_meets _ hnode hown hc) fun x => .pure hleaf
    · exact .pure hleaf
    · exact .pure hleaf
    · exact .pure hleaf
    · exact .pure hleaf
    · exact .pure hleaf
    · exact .read (htext "name" rfl) fun name => .pure hleaf
    · refine .read (htext "operator" rfl) fun op => ?_
      refine .bind (hfield "left" rfl rfl c) fun left c₁ hleft => ?_
      refine .bind (hfield "right" rfl rfl c₁) fun right c₂ hright => ?_
      exact .pure ⟨.cons hown (hleft.1.append hright.1), (hright.2.append _).cons _⟩
    · refine .read (htext "operator" rfl) fun op => ?_
      exact MeetsExpr.around hown (hfield "operand" rfl rfl c) fun _ => rfl
    · refine .read (htext "operator" rfl) fun op => ?_
      exact MeetsExpr.around hown (hfield "operand" rfl rfl c) fun _ => rfl
    · exact hcall _ fun _ _ => rfl
    · exact hcall _ fun _ _ => rfl
    · refine .read (htext "name" rfl) fun name => ?_
      exact MeetsExpr.around hown (hfield "expression" rfl rfl c) fun _ => rfl
    · exact MeetsExpr.around hown (hfield "expression" rfl rfl c) fun _ => rfl
    · exact MeetsExpr.around hown (hfield "expression" rfl rfl c) fun _ => rfl
    · exact MeetsExpr.around hown (hfield "expression" rfl rfl c) fun _ => rfl
    · exact MeetsExpr.around hown (hfield "expression" rfl rfl c) fun _ => rfl
    · exact MeetsExpr.around hown (hfield "expression" rfl rfl c) fun _ => rfl
    · exact .pure hleaf
  | .null | .bool _ | .number _ | .string _ | .array _ => fun _ _ => notAnObject_meets _ _

theorem exprField_meets {here : Place} {node : Fields} {line : Nat} (kind : String) {field : String}
    (hread : readLate field = false) (hown : Stamped document (here, line))
    (hat : FieldAt document here node field line) :
    ∀ part : Fields, part.get? field = node.get? field →
      ∀ c, MeetsExpr document c (here ++ [.field field]) (exprField kind field line part)
  | [], hpart, c => .throw (explained_missing hat.stands (fun value hvalue => by cases hpart.trans hvalue)
      (.own hread hown))
  | (name, value) :: rest, hpart, c => by
    have hvalue := expr_meets (here ++ [.field field]) line value
    have hrest := exprField_meets kind hread hown hat rest
    rw [exprField.eq_def]
    dsimp only
    split
    · next heq =>
      have hfound := (get?_cons hpart).1 heq
      split
      · refine .throw (explained_missing hat.stands (fun v hv => ?_) (.own hread hown))
        cases hfound.symm.trans hv
        exact present_null field
      · exact hvalue (hat.spot _ hfound) c
    · next hne => exact hrest ((get?_cons hpart).2 hne) c

/-- The nodes `before` are those of the callee. -/
theorem arguments_meets {here : Place} {node : Fields} {line : Nat} (kind : String)
    (hat : FieldAt document here node "arguments" line) :
    ∀ part : Fields, part.get? "arguments" = node.get? "arguments" →
      ∀ (c : Cursor) {before : List (Place × Nat)},
        Reported document here "arguments" c.line → Ends before c.line →
        Meets document c (argumentsField kind line part) fun es c' =>
          AllStamped document (exprsNodes (here ++ [.field "arguments"]) 0 es) ∧
            Ends (before ++ exprsNodes (here ++ [.field "arguments"]) 0 es) c'.line
  | [], _, c, before, _, hbefore => .pure ⟨.nil, (List.append_nil before).symm ▸ hbefore⟩
  | (name, value) :: rest, hpart, c, before, hline, hbefore => by
    have hrest := arguments_meets kind hat rest
    rw [argumentsField.eq_def]
    dsimp only
    split
    · next heq =>
      have hfound := (get?_cons hpart).1 heq
      cases value with
      | array values => exact exprs_meets _ line values 0 (.of_array (hat.spot _ hfound)) c hbefore
      | null => exact .pure ⟨.nil, (List.append_nil before).symm ▸ hbefore⟩
      | _ => exact invalid_meets hat.stands hline kind hfound rfl
    · next hne => exact hrest ((get?_cons hpart).2 hne) c hline hbefore

theorem exprs_meets (here : Place) (line : Nat) :
    ∀ (values : List Value) (first : Nat), ItemsAt document here line first values →
      ∀ (c : Cursor) {before : List (Place × Nat)}, Ends before c.line →
        Meets document c (exprs line values) fun es c' =>
          AllStamped document (exprsNodes here first es) ∧
            Ends (before ++ exprsNodes here first es) c'.line
  | [], _, _, c, before, hbefore => .pure ⟨.nil, (List.append_nil before).symm ▸ hbefore⟩
  | value :: rest, first, hitems, c, before, _ => by
    have hvalue := expr_meets _ line value hitems.head c
    have hrest := exprs_meets here line rest (first + 1) hitems.tail
    rw [exprs]
    refine .bind hvalue fun e c₁ he => .bind (hrest c₁ (he.2.append before)) fun es c₂ hes => ?_
    rw [List.append_assoc] at hes
    exact .pure ⟨he.1.append hes.1, hes.2⟩

end

/-- An expression that may be missing. -/
theorem exprField?_meets {c : Cursor} {here : Place} {node : Fields} {field : String} {line : Nat}
    (hat : FieldAt document here node field line) :
    Meets document c (exprField? node field line) fun e _ =>
      AllStamped document (optionalNodes (here ++ [.field field]) e) := by
  unfold exprField?
  split
  · exact .pure .nil
  · exact .pure .nil
  · next value _ hvalue =>
    exact .bind (expr_meets _ line value (hat.spot _ hvalue) c) fun e c he => .pure he.1

end Expressions

/-! ## Parts of statements -/

section Parts

variable {document : Value} {c : Cursor} {here : Place}

/-- A declarator hands nothing down: its initializer inherits what it inherits itself. -/
theorem declarator_meets {value : Value} {inherited : Nat}
    (hspot : spot? skippingDeclarators document here = some ⟨value, inherited, false⟩) :
    Meets document c (declarator inherited value) fun d _ => AllStamped document (d.nodes here) := by
  unfold declarator
  refine .bind (object_meets value _ _) fun node c ⟨hnode, _⟩ => ?_
  subst hnode
  refine .bind (exprField?_meets (c := c) (.of_spot _ rfl hspot)) fun initializer c hinit => ?_
  refine .bind (Q := fun _ c' => c'.line = nodeLine node inherited) (.lift rfl) fun _ c hc => ?_
  have hown : Stamped document (here, c.line) := hc ▸ lineAt?_eq hspot
  refine .read (flag_meets (nodeAt?_eq hspot) (.own rfl hown) _) fun pattern => ?_
  split
  · exact .lift (.cons hown hinit)
  · refine .read (text_meets (nodeAt?_eq hspot) (.own rfl hown) _) fun name => ?_
    exact .lift (.cons hown hinit)

section Node

variable {node : Fields} {inherited : Nat} (kind : String)
  (hspot : spot? skippingDeclarators document here = some ⟨.object node, inherited, true⟩)
  (hc : c.line = nodeLine node inherited)

include hspot hc

/-- Loading an import leaves the cursor on the line of the import. -/
theorem imports_meets :
    Meets document c (imports node kind (nodeLine node inherited)) fun _ c' => c' = c := by
  have hnode := nodeAt?_eq hspot
  have hown : Stamped document (here, c.line) := hc ▸ lineAt?_eq hspot
  unfold imports
  refine .read (text_meets hnode (.own rfl hown) kind) fun module => ?_
  refine .read (text?_meets hnode (.own rfl hown) kind) fun default => ?_
  refine .read (text?_meets hnode (.own rfl hown) kind) fun namespaceName => ?_
  refine .bind (items_meets hnode (.own rfl hown) kind) fun values c₄ ⟨hsame, hvalues⟩ => ?_
  subst hsame
  refine .bind (.mapM (P := fun _ _ => True) (I := fun _ c => c = c₄) values
    (fun i value hvalue c hsame => ?_) rfl) fun named c₅ hnamed => .pure hnamed.2
  subst hsame
  unfold importName
  refine .bind (object_meets value _ _) fun part c₁ ⟨hpart, hsame⟩ => ?_
  subst hpart hsame
  have hname := nodeAt?_eq (spot?_itemsOf hspot (hvalues ▸ hvalue))
  refine .read (text_meets hname (.imported i hown) _) fun name => ?_
  refine .read (text?_meets hname (.imported i hown) _) fun localName => ?_
  exact .pure ⟨trivial, rfl⟩

omit hspot hc in
theorem param_meets {value : Value}
    (hspot : spot? skippingDeclarators document here = some ⟨value, inherited, true⟩) :
    Meets document c (param inherited value) fun p c' =>
      AllStamped document (p.nodes here) ∧ Stamped document (here, c'.line) := by
  unfold param
  refine .bind (object_meets value _ _) fun node c ⟨hnode, _⟩ => ?_
  subst hnode
  have hnode := nodeAt?_eq hspot
  refine .bind (Q := fun _ c' => c'.line = nodeLine node inherited) (.lift rfl) fun _ c hc => ?_
  have hown : Stamped document (here, c.line) := hc ▸ lineAt?_eq hspot
  refine .read (flag_meets hnode (.own rfl hown) _) fun rest => ?_
  refine .read (text?_meets hnode (.own rfl hown) _) fun type => ?_
  refine .read (flag_meets hnode (.own rfl hown) _) fun pattern => ?_
  dsimp only
  split
  · exact .lift ⟨.cons hown .nil, hown⟩
  · refine .read (text_meets hnode (.own rfl hown) _) fun name => ?_
    exact .lift ⟨.cons hown .nil, hown⟩

/-- Loading parameters leaves the cursor on the line of the last one; without any it stays. -/
theorem params_meets :
    Meets document c (params node kind (nodeLine node inherited)) fun ps c' =>
      AllStamped document (itemNodes Param.nodes (here ++ [.field "parameters"]) ps) ∧
        Reported document here "body" c'.line := by
  have hnode := nodeAt?_eq hspot
  have hown : Stamped document (here, c.line) := hc ▸ lineAt?_eq hspot
  unfold params
  refine .bind (items_meets hnode (.own rfl hown) kind) fun values c ⟨hsame, hvalues⟩ => ?_
  subst hsame hvalues
  refine (Meets.mapM (P := fun i p => AllStamped document
    (p.nodes (here ++ [.field "parameters"] ++ [.item i])))
    (I := fun n c => match n with
      | 0 => Stamped document (here, c.line)
      | i + 1 => Stamped document (here ++ [.field "parameters"] ++ [.item i], c.line)) _
    (fun i value hvalue c _ => param_meets (spot?_itemsOf hspot hvalue)) hown).mono
      fun ps c' hps => ⟨forall_itemNodes hps.1, ?_⟩
  have hline := hps.2
  cases hlength : (itemsOf node "parameters").length with
  | zero =>
    rw [hlength] at hline
    exact .body hnode (List.eq_nil_of_length_eq_zero hlength) hline
  | succ i =>
    rw [hlength] at hline
    exact .parameter hnode hlength hline

theorem function_meets {body : Loader (Option (List Stmt))}
    (hbody : ∀ c, Reported document here "body" c.line → Meets document c body fun b _ =>
      AllStamped document (bodyNodes (here ++ [.field "body"]) b)) :
    Meets document c (function node kind (nodeLine node inherited) body) fun f _ =>
      AllStamped document (f.nodes here) := by
  have hnode := nodeAt?_eq hspot
  have hown : Stamped document (here, nodeLine node inherited) := lineAt?_eq hspot
  unfold function
  refine .read (text?_meets hnode (.own rfl (hc ▸ hown)) kind) fun name => ?_
  refine .read (flag_meets hnode (.own rfl (hc ▸ hown)) kind) fun isAsync => ?_
  refine .bind (params_meets kind hspot hc) fun ps c hps => ?_
  refine .bind (hbody c hps.2) fun b c hb => ?_
  exact .remade fun c hc => .cons (hc ▸ hown) (hps.1.append hb)

theorem classDef_meets {members : Loader (List Member)}
    (hmembers : ∀ c, Stamped document (here, c.line) → Meets document c members fun ms _ =>
      AllStamped document (membersNodes (here ++ [.field "members"]) 0 ms)) :
    Meets document c (classDef node kind (nodeLine node inherited) members) fun d _ =>
      AllStamped document (d.nodes here) := by
  have hnode := nodeAt?_eq hspot
  have hown : Stamped document (here, nodeLine node inherited) := lineAt?_eq hspot
  unfold classDef
  refine .read (text?_meets hnode (.own rfl (hc ▸ hown)) kind) fun name => ?_
  refine .read (text?_meets hnode (.own rfl (hc ▸ hown)) kind) fun parent => ?_
  refine .read (flag_meets hnode (.own rfl (hc ▸ hown)) kind) fun isDeclared => ?_
  refine .read (flag_meets hnode (.own rfl (hc ▸ hown)) kind) fun isAbstract => ?_
  refine .bind (hmembers c (hc ▸ hown)) fun ms c hms => ?_
  exact .remade fun c hc => .cons (hc ▸ hown) hms

end Node

end Parts

/-! ## Statements -/

section Statements

variable {document : Value}

/-- The loader of a part gives nodes on the lines of their places. -/
abbrev Stamps {α : Type} (document : Value) (c : Cursor) (nodes : α → List (Place × Nat))
    (m : Loader α) : Prop :=
  Meets document c m fun a _ => AllStamped document (nodes a)

mutual

theorem stmt_meets (here : Place) (inherited : Nat) :
    ∀ value, spot? skippingDeclarators document here = some ⟨value, inherited, true⟩ →
      ∀ c, Stamps document c (Stmt.nodes here) (stmt inherited value)
  | .object node => by
    intro hspot c
    rw [stmt]
    refine .bind (enter_meets "statement" hspot) fun (kind, line) c ⟨hkind, hc⟩ => ?_
    obtain rfl : line = nodeLine node inherited := hkind
    have hnode := nodeAt?_eq hspot
    have hown : Stamped document (here, nodeLine node inherited) := lineAt?_eq hspot
    have hstmts := stmtsField_meets kind (.of_spot "statements" rfl hspot) node rfl
    have hbody := bodyField_meets kind (.of_spot _ rfl hspot) node rfl
    have hmembers := membersField_meets kind (.of_spot _ rfl hspot) node rfl
    dsimp only
    split
    · refine .bind (hstmts c (.own rfl (hc ▸ hown))) fun body c hbody => ?_
      exact .remade fun c hc => .cons (hc ▸ hown) hbody
    · refine .read (imports_meets _ hspot hc) fun names => ?_
      exact .lift (.cons (hc ▸ hown) .nil)
    · refine .bind (items_meets hnode (.own rfl (hc ▸ hown)) _) fun values c ⟨_, hvalues⟩ => ?_
      subst hvalues
      refine .bind (.mapM (P := fun i d => AllStamped document
        (d.nodes (here ++ [.field "declarations"] ++ [.item i]))) (I := fun _ _ => True) _
        (fun i value hvalue c _ => Meets.mono (declarator_meets (spot?_itemsOf hspot hvalue))
          fun d _ hd => ⟨hd, trivial⟩) trivial) fun ds c hds => ?_
      exact .remade fun c hc => .cons (hc ▸ hown) (forall_itemNodes hds.1)
    · refine .bind (exprField_meets _ rfl hown (.of_spot _ rfl hspot) node rfl c) fun e c he => ?_
      exact .remade fun c hc => .cons (hc ▸ hown) he.1
    · refine .bind (exprField?_meets (.of_spot _ rfl hspot)) fun value c hvalue => ?_
      exact .remade fun c hc => .cons (hc ▸ hown) hvalue
    · exact .bind (function_meets _ hspot hc hbody) fun f c hf => .pure hf
    · exact .bind (classDef_meets _ hspot hc fun c hc => hmembers c (.own rfl hc))
        fun d c hd => .pure hd
    · exact .lift (.cons (hc ▸ hown) .nil)
    · exact .lift (.cons (hc ▸ hown) .nil)
    · exact .lift (.cons (hc ▸ hown) .nil)
    · exact .lift (.cons (hc ▸ hown) .nil)
  | .null | .bool _ | .number _ | .string _ | .array _ => fun _ _ => notAnObject_meets _ _

theorem stmtsField_meets {here : Place} {node : Fields} {field : String} {line : Nat} (kind : String)
    (hat : FieldAt document here node field line) :
    ∀ part : Fields, part.get? field = node.get? field →
      ∀ c, Reported document here field c.line →
        Stamps document c (stmtsNodes (here ++ [.field field]) 0) (stmtsField kind field line part)
  | [], _, _, _ => .pure .nil
  | (name, value) :: rest, hpart, c, hline => by
    have hrest := stmtsField_meets kind hat rest
    rw [stmtsField.eq_def]
    dsimp only
    split
    · next heq =>
      have hfound := (get?_cons hpart).1 heq
      cases value with
      | array values => exact stmts_meets _ line values 0 (.of_array (hat.spot _ hfound)) c
      | null => exact .pure .nil
      | _ => exact invalid_meets hat.stands hline kind hfound rfl
    · next hne => exact hrest ((get?_cons hpart).2 hne) c hline

theorem stmts_meets (here : Place) (line : Nat) :
    ∀ (values : List Value) (first : Nat), ItemsAt document here line first values →
      ∀ c, Stamps document c (stmtsNodes here first) (stmts line values)
  | [], _, _, _ => .pure .nil
  | value :: rest, first, hitems, c => by
    have hvalue := stmt_meets _ line value hitems.head c
    have hrest := stmts_meets here line rest (first + 1) hitems.tail
    rw [stmts]
    exact .bind hvalue fun st c hst => .bind (hrest c) fun others _ hothers =>
      .pure (hst.append hothers)

theorem bodyField_meets {here : Place} {node : Fields} {line : Nat} (kind : String)
    (hat : FieldAt document here node "body" line) :
    ∀ part : Fields, part.get? "body" = node.get? "body" →
      ∀ c, Reported document here "body" c.line →
        Stamps document c (bodyNodes (here ++ [.field "body"])) (bodyField kind line part)
  | [], _, _, _ => .pure .nil
  | (name, value) :: rest, hpart, c, hline => by
    have hrest := bodyField_meets kind hat rest
    rw [bodyField.eq_def]
    dsimp only
    split
    · next heq =>
      have hfound := (get?_cons hpart).1 heq
      cases value with
      | array values =>
        exact .bind (stmts_meets _ line values 0 (.of_array (hat.spot _ hfound)) c)
          fun body c hbody => .pure hbody
      | null => exact .pure .nil
      | _ => exact invalid_meets hat.stands hline kind hfound rfl
    · next hne => exact hrest ((get?_cons hpart).2 hne) c hline

theorem membersField_meets {here : Place} {node : Fields} {line : Nat} (kind : String)
    (hat : FieldAt document here node "members" line) :
    ∀ part : Fields, part.get? "members" = node.get? "members" →
      ∀ c, Reported document here "members" c.line →
        Stamps document c (membersNodes (here ++ [.field "members"]) 0) (membersField kind line part)
  | [], _, _, _ => .pure .nil
  | (name, value) :: rest, hpart, c, hline => by
    have hrest := membersField_meets kind hat rest
    rw [membersField.eq_def]
    dsimp only
    split
    · next heq =>
      have hfound := (get?_cons hpart).1 heq
      cases value with
      | array values => exact members_meets _ line values 0 (.of_array (hat.spot _ hfound)) c
      | null => exact .pure .nil
      | _ => exact invalid_meets hat.stands hline kind hfound rfl
    · next hne => exact hrest ((get?_cons hpart).2 hne) c hline

theorem members_meets (here : Place) (line : Nat) :
    ∀ (values : List Value) (first : Nat), ItemsAt document here line first values →
      ∀ c, Stamps document c (membersNodes here first) (members line values)
  | [], _, _, _ => .pure .nil
  | value :: rest, first, hitems, c => by
    have hvalue := member_meets _ line value hitems.head c
    have hrest := members_meets here line rest (first + 1) hitems.tail
    rw [members]
    exact .bind hvalue fun m c hm => .bind (hrest c) fun others _ hothers =>
      .pure (hm.append hothers)

theorem member_meets (here : Place) (inherited : Nat) :
    ∀ value, spot? skippingDeclarators document here = some ⟨value, inherited, true⟩ →
      ∀ c, Stamps document c (Member.nodes here) (member inherited value)
  | .object node => by
    intro hspot c
    rw [member]
    refine .bind (enter_meets "class member" hspot) fun (kind, line) c ⟨hkind, hc⟩ => ?_
    obtain rfl : line = nodeLine node inherited := hkind
    have hnode := nodeAt?_eq hspot
    have hown : Stamped document (here, nodeLine node inherited) := lineAt?_eq hspot
    have hstmts := stmtsField_meets kind (.of_spot "body" rfl hspot) node rfl
    have hbody := bodyField_meets kind (.of_spot _ rfl hspot) node rfl
    dsimp only
    split
    · refine .read (flag_meets hnode (.own rfl (hc ▸ hown)) _) fun isStatic => ?_
      refine .read (text_meets hnode (.own rfl (hc ▸ hown)) _) fun name => ?_
      exact .bind (function_meets _ hspot hc hbody) fun f c hf => .pure hf
    · refine .bind (params_meets _ hspot hc) fun ps c hps => ?_
      refine .bind (hstmts c hps.2) fun body c hbody => ?_
      exact .remade fun c hc => .cons (hc ▸ hown) (hps.1.append hbody)
    · refine .read (text_meets hnode (.own rfl (hc ▸ hown)) _) fun name => ?_
      refine .read (flag_meets hnode (.own rfl (hc ▸ hown)) _) fun isStatic => ?_
      refine .bind (exprField?_meets (.of_spot _ rfl hspot)) fun initializer c hinit => ?_
      exact .remade fun c hc => .cons (hc ▸ hown) hinit
    · exact .lift (.cons (hc ▸ hown) .nil)
  | .null | .bool _ | .number _ | .string _ | .array _ => fun _ _ => notAnObject_meets _ _

end

end Statements

/-! ## Documents -/

section Documents

variable {fallback : String}

/-- The document itself is no node: its statements are loaded with the line 0, from the line 1 on which
the cursor stands first. -/
theorem statements_meets (fields : Fields) :
    Stamps (.object fields) {} (stmtsNodes [.field "statements"] 0)
      (stmtsField "document" "statements" 0 fields) := by
  have hfield : FieldAt (.object fields) [] fields "statements" 0 := .of_spot _ rfl spot?_nil
  exact stmtsField_meets "document" hfield fields rfl {} .statements

theorem fileField_explained {fields : Fields} {e : LoadError}
    (h : fileField fields fallback = .error e) : Explained (.object fields) e := by
  unfold fileField at h
  split at h
  · cases h
  · next value hne hvalue =>
    cases h
    refine explained_invalid (nodeAt?_eq spot?_nil) hvalue ?_ .file
    cases value with
    | string s => exact (hne s rfl).elim
    | _ => rfl
  · cases h

/-- A unit whose nodes have the lines of their places, or an error that the document explains. -/
def Accounted (document : Value) : Except LoadError CompilationUnit → Prop
  | .ok u => AllStamped document u.nodes
  | .error e => Explained document e

/-- Every document has the one or the other. -/
theorem load_accounted (document : Value) (fallback : String) :
    Accounted document (load document fallback) := by
  cases document with
  | object fields =>
    have hmeets := statements_meets fields
    rw [load]
    cases hfile : fileField fields fallback with
    | error e => exact fileField_explained hfile
    | ok file =>
      cases hrun : (stmtsField "document" "statements" 0 fields).run {} with
      | error e =>
        show Explained _ _
        exact hmeets.of_error hrun
      | ok r => exact hmeets.of_ok hrun
  | _ => exact explained_notAnObject _ _

variable {document : Value}

/-- **The nodes of a loaded unit have the lines of their places.**  A node has its own line if that is
valid, and otherwise the line of the nearest node around, past a declarator.  Except inside declarators
that is simply the nearest node around. -/
theorem load_lines {u : CompilationUnit} (h : load document fallback = .ok u) {place : Place} {line : Nat}
    (hnode : (place, line) ∈ u.nodes) :
    lineAt? skippingDeclarators document place = some line ∧
      (¬ InsideDeclarator place → lineAt? everyNode document place = some line) := by
  have hstamped : AllStamped document u.nodes := by
    have haccounted := load_accounted document fallback
    rw [h] at haccounted
    exact haccounted
  have hline := hstamped (place, line) hnode
  exact ⟨hline, fun hoff => (lineAt?_everyNode hoff).trans hline⟩

/-- The first line has a variable statement, the second its declarator `x = y`. -/
def declaratorDocument : Value :=
  .object [("statements", .array [
    .object [("kind", .string "VariableStatement"), ("line", .ofNat 1), ("declarations", .array [
      .object [("name", .string "x"), ("line", .ofNat 2),
        ("initializer", .object [("kind", .string "Identifier"), ("name", .string "y")])]])]])]

def declaratorUnit : CompilationUnit where
  fileName := "main.ts"
  context := "main"
  statements := [.bindings 1 [⟨.identifier "x", some (.identifier { line := 1 } "y"), 2⟩]]
  declCount := 0

/-- The place of the declarator. -/
def declaratorPlace : Place := [.field "statements", .item 0, .field "declarations", .item 0]

theorem load_lines_declarator :
    load declaratorDocument "main.ts" = .ok declaratorUnit ∧ (declaratorPlace, 2) ∈ declaratorUnit.nodes ∧
    ¬ InsideDeclarator declaratorPlace ∧ lineAt? everyNode declaratorDocument declaratorPlace = some 2 := by
  have hload : load declaratorDocument "main.ts" = .ok declaratorUnit := rfl
  have hnode : (declaratorPlace, 2) ∈ declaratorUnit.nodes := by decide
  have hoff : ¬ InsideDeclarator declaratorPlace := by
    simp [InsideDeclarator, declaratorPlace, List.cons_eq_append_iff]
  exact ⟨hload, hnode, hoff, (load_lines hload hnode).2 hoff⟩

/-- **An initializer takes no line from its declarator.** -/
theorem declarator_skipped :
    load declaratorDocument "main.ts" = .ok declaratorUnit ∧
    (declaratorPlace ++ [.field "initializer"], 1) ∈ declaratorUnit.nodes ∧
    lineAt? everyNode declaratorDocument (declaratorPlace ++ [.field "initializer"]) = some 2 :=
  ⟨rfl, by decide, rfl⟩

end Documents

end Document

end FrameScript
