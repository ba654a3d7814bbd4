/-
  What the scripts of a unit change.

  A command of a script changes what its expression changes, or the slot that a statement stores a
  value in: that of a variable, of a returned value or of a field (`Runs.changesOnly`).  These slots are
  spelled as the names of the unit are.  So in a unit whose names have no slash a script changes a path
  of the unit only where the target of an assignment or an update denotes a function, class or method.

  Nothing keeps that from happening.  What can be assigned to is decided by the form of the target and
  never by what it denotes, and `f = 1` for a function `f` compiles (`function_assigned`).
-/
import FrameScript.Proofs.Assignable
import FrameScript.Proofs.Dangling
import FrameScript.Proofs.Shapes

namespace FrameScript

open Source

/-! ## Commands and slots -/

/-- The commands change registers of some kind only. -/
def ChangesOnly (G : String → Prop) (commands : List Command) : Prop :=
  ∀ c ∈ commands, ∀ x, c.target? = some x → G x

namespace ChangesOnly

variable {G : String → Prop} {xs ys : List Command}

theorem of_untargeted (h : ∀ c ∈ xs, c.target? = none) : ChangesOnly G xs := by
  intro c hc x hx
  rw [h c hc] at hx
  cases hx

theorem nil : ChangesOnly G [] := fun _ hc => absurd hc List.not_mem_nil

theorem append (hx : ChangesOnly G xs) (hy : ChangesOnly G ys) : ChangesOnly G (xs ++ ys) := by
  intro c hc
  rcases List.mem_append.mp hc with hc | hc
  · exact hx c hc
  · exact hy c hc

theorem declarations (names : List String) : ChangesOnly G (declarations names) := by
  refine of_untargeted fun c hc => ?_
  obtain ⟨name, -, rfl⟩ := List.mem_map.mp hc
  rfl

theorem invoking (h : Invoking xs) : ChangesOnly G xs := by
  refine of_untargeted fun c hc => ?_
  obtain ⟨path, rfl⟩ := h c hc
  rfl

theorem bracket (h : ChangesOnly G xs) (frame : Frame) : ChangesOnly G (frame.bracket xs) := by
  have hmark : ∀ {c : Command}, c.target? = none → ChangesOnly G [c] := fun hc =>
    of_untargeted fun d hd => List.mem_singleton.mp hd ▸ hc
  cases frame with
  | none => exact (nil.append h).append nil
  | some tag => exact ((hmark rfl).append h).append (hmark rfl)

end ChangesOnly

/-- The slots of the class are spelled after the class and the property. -/
def ClassInfo.Spelled (info : ClassInfo) : Prop :=
  ∀ f ∈ info.fields, ∃ n, f.2 = mintedId (methodScript info.name f.1) n

/-- So are those of all classes. -/
def Surroundings.Spelled (q : Surroundings) : Prop :=
  ∀ id info, q.decls.class? id = some info → info.Spelled

theorem MembersDeclared.spelled {info info' : ClassInfo} {s t : Session} {ms : List Member}
    (h : MembersDeclared info s ms info' t) (hinfo : info.Spelled) : info'.Spelled := by
  induction h with
  | nil info s => exact hinfo
  | @cons info info' info'' s t u m rest hfirst _ ih =>
    refine ih ?_
    cases hfirst with
    | property p =>
      intro f hf
      rcases List.mem_append.mp hf with hf | hf
      · exact hinfo f hf
      · obtain rfl := List.mem_singleton.mp hf
        exact ⟨_, rfl⟩
    | _ => exact hinfo

theorem Surroundings.Spelled.changes {P : Change → Prop} {s t : Session} (h : Changes P s t)
    (hP : ∀ id info, P (.records id (.classInfo info)) → info.Spelled) (hs : s.Spelled) : t.Spelled := by
  refine h.keeps (I := fun s => s.Spelled) (fun s change hchange hs => ?_) hs
  cases change with
  | counts n => exact hs
  | names symbol => exact hs
  | records id d =>
    intro i info hinfo
    rcases Session.recorded_class_cases hinfo with rfl | hold
    · exact hP id info hchange
    · exact hs i info hold

theorem Surroundings.Spelled.invariant : Surroundings.Invariant Surroundings.Spelled where
  withVariable _ _ h := h
  function hdeclared h := by
    rcases hdeclared.changes rfl with rfl | ⟨-, hchanges⟩
    · exact h
    · exact h.changes hchanges fun id info hrecord => nomatch hrecord
  classDef {s t c} hdeclared h := by
    cases hdeclared with
    | known _ => exact h
    | @fresh info u hown hfresh hmembers =>
      have hnamed : (s.named c.name).2.Spelled := fun id info' hinfo' =>
        h id info' (s.named_decls c.name ▸ hinfo')
      have hu : u.Spelled := by
        refine changes (s := (s.named c.name).2.registered _)
          (hmembers.changes (q := s.toSurroundings) (Session.Untouched.named s c.name).unit
            (List.Subset.refl _)) (fun id info' hrecord => ?_) hnamed
        obtain ⟨m, -, hchange⟩ := hrecord
        cases hchange
      intro id info' hinfo'
      rcases Session.recorded_class_cases hinfo' with hrecorded | hold
      · cases hrecorded
        exact hmembers.spelled fun f hf => absurd hf List.not_mem_nil
      · exact hu id info' hold
  opened _ _ _ h := h
  closed _ ht := ht

theorem Surroundings.Spelled.begin (s : Session) (u : CompilationUnit) : (s.begin u).Spelled := by
  intro id info hinfo
  rw [DeclTable.class?_none (s.begin_free u id)] at hinfo
  cases hinfo

namespace Naming.Coherent

variable {N : Naming} {q : Surroundings} (h : N.Coherent q)

include h

theorem plain_slot {id : DeclId} {k : Callable} (hk : q.decls.callable? id = some k) {slot : String}
    (hslot : slot ∈ k.slots) : N.plain slot := by
  unfold DeclTable.callable? at hk
  split at hk
  · next k' hrecord =>
    obtain rfl := Option.some.inj hk
    exact (h.records id _ hrecord).2 slot hslot
  · cases hk

theorem plain_className {id : DeclId} {info : ClassInfo} (hinfo : q.decls.class? id = some info) :
    N.plain info.name := by
  unfold DeclTable.class? at hinfo
  split at hinfo
  · next info' hrecord =>
    obtain rfl := Option.some.inj hinfo
    exact (h.records id _ hrecord).1
  · cases hinfo

end Naming.Coherent

/-- The work initializes a class that is spelled as names are. -/
def Task.Initializes (N : Naming) (task : Task) : Prop :=
  ∀ info, task.info? = some info → N.plain info.name ∧ info.Spelled

/-- The slot that a statement stores a value in is spelled as names are. -/
theorem Evaluation.plain {N : Naming} {task : Task} {s t : Session} {slot : String} {e : Expr}
    {flow : Flow} (h : Evaluation task s t (.stored slot) e flow) (hnames : ∀ n ∈ task.names, N.plain n)
    (hinfo : task.Initializes N) (hs : N.Coherent s.toSurroundings) : N.plain slot := by
  cases h with
  | @initializer d name _ hname _ =>
    refine N.plain_minted _ (hnames name (List.mem_append_left _ ?_))
    rw [hname]
    exact List.mem_cons_self
  | returned line _ hslot =>
    obtain ⟨k, hk, hreturn⟩ := Option.bind_eq_some_iff.mp hslot
    obtain ⟨id, -, hk⟩ := Option.bind_eq_some_iff.mp hk
    exact hs.plain_slot hk (List.mem_append_right _ (Option.mem_toList.mpr hreturn))
  | @field info p _ _ he hslot =>
    obtain ⟨f, hfind, rfl⟩ := Option.map_eq_some_iff.mp hslot
    obtain ⟨hname, hspelled⟩ := hinfo info rfl
    obtain ⟨n, hminted⟩ := hspelled f (List.mem_of_find?_eq_some hfind)
    have hf : f.1 = p.name := by simpa using List.find?_some hfind
    rw [hminted, hf]
    exact N.plain_minted n (N.plain_method hname (hnames p.name List.mem_cons_self))

/-! ## Runs -/

/-- **Scripts change what expressions change**, and slots of their own. -/
theorem Runs.changesOnly {N : Naming} {G : String → Prop} (hplain : ∀ x, N.plain x → G x) {task : Task}
    {s t : Session} {log : List Event} {out : Emitted Flow} (h : Runs task s log out t)
    (hfit : task.Fit s.decls) (hnames : ∀ n ∈ task.names, N.plain n) (hprologue : Invoking task.prologue)
    (hinfo : task.Initializes N) (hs : N.Coherent s.toSurroundings) (hspelled : s.Spelled)
    (hlog : ∀ q e, .lowers q e ∈ log → ∀ a b slot, Writes q e a b slot → G slot)
    (hscripts : s.Each (ChangesOnly G)) : ChangesOnly G out.commands ∧ t.Each (ChangesOnly G) := by
  induction h with
  | idle h =>
    obtain ⟨ws, rfl⟩ := h.eq_noting
    exact ⟨.nil, hscripts⟩
  | seq hsplit hfirst hrest ihfirst ihrest =>
    obtain ⟨hn, hn'⟩ := Task.split_names hsplit
    obtain ⟨hp, hp'⟩ := Task.split_prologue hsplit
    obtain ⟨hi, hi'⟩ := Task.split_info hsplit hinfo
    have hfit' := hfit.first hsplit
    have hnames' := fun n hin => hnames n (hn hin)
    obtain ⟨hcommands, ht⟩ := ihfirst hfit' hnames' (hp ▸ .nil) hi hs hspelled
      (fun q e hin => hlog q e (List.mem_append_left _ hin)) hscripts
    obtain ⟨hcommands', hu⟩ := ihrest (hfit.rest hsplit hfirst) (fun n hin => hnames n (hn' hin))
      (hp' ▸ .nil) hi' (hfirst.coherent hfit' hnames' hs).1
      (hfirst.keeps Surroundings.Spelled.invariant hspelled).1
      (fun q e hin => hlog q e (List.mem_append_right _ hin)) ht
    exact ⟨hcommands.append hcommands', hu⟩
  | @returned st s t log commands rest _ ih =>
    obtain ⟨ws, hws⟩ := t.skipping_eq_noting rest
    rw [hws]
    exact ih (hfit.first rfl) (fun n hin => hnames n (List.mem_append_left _ hin)) .nil nofun hs hspelled
      hlog hscripts
  | inside hinside _ ih =>
    refine ih (hfit.inside hinside) (Task.inside_names hinside ▸ hnames)
      (Task.inside_prologue hinside ▸ .nil) ?_ hs hspelled hlog hscripts
    cases Task.encloses hinside <;> exact nofun
  | declares _ _ s => exact ⟨.nil, hscripts⟩
  | @evaluates task s t use e flow commands fx htask he =>
    have ht : t.Each (ChangesOnly G) := by
      rcases htask.prepared with ⟨ws, rfl⟩ | ⟨_, _, _, _, rfl⟩ <;> exact hscripts
    have hwrites := hlog _ _ List.mem_cons_self
    refine ⟨?_, ht⟩
    cases use with
    | dropped => exact fun c hc x hx => hwrites _ _ x (he.writes c hc x hx)
    | stored slot =>
      obtain ⟨before, v, rfl, hbefore⟩ := he.writes_stored
      have hexpr : ChangesOnly G before := fun c hc x hx => hwrites _ _ x (hbefore c hc x hx)
      refine hexpr.append fun c hc x hx => ?_
      obtain rfl := List.mem_singleton.mp hc
      obtain rfl : slot = x := Option.some.inj ((Lower.target?_assign _ slot _).symm.trans hx)
      exact hplain slot (htask.plain hnames hinfo hs)
  | @function f body s t u log out hbody hdeclared _ ih =>
    have huntouched := Session.Untouched.function hdeclared
    have ht : N.Coherent t.toSurroundings :=
      Naming.Holds.function hdeclared (.refl _) hnames (hs.mono hdeclared.sub)
    have hinner : ∀ n ∈ (Task.callable f.id f.line t.scope.enclosing [] body).names, N.plain n := by
      intro n hn
      rcases Task.function_names hbody hn with ⟨c, hc, hn⟩ | hn
      · exact ht.parents c hc n hn
      · exact hnames n hn
    obtain ⟨ws, hws⟩ := t.warnedIf_eq_noting f.isAsync f.line "async function is lowered synchronously"
    rw [hws] at ih
    have htspelled : t.Spelled := Surroundings.Spelled.invariant.function hdeclared hspelled
    exact ⟨.nil, (ih (hfit.function hbody hdeclared _ _ _) hinner .nil nofun ht htspelled hlog
      (hscripts.congr huntouched.scripts)).2⟩
  | @method info scope f isStatic body s t log out hbody _ ih =>
    obtain ⟨ws, hws⟩ := s.warnedIf_eq_noting f.isAsync f.line "async method is lowered synchronously"
    rw [hws] at ih
    exact ⟨.nil, (ih (hfit.method hbody _ _ _)
      (fun n hn => hnames n (Task.method_names hbody info scope isStatic _ _ hn)) .nil nofun hs hspelled
      hlog hscripts).2⟩
  | @classDef c info s t u log out hown hdeclared hfound _ ih =>
    have huntouched := Session.Untouched.classDef hdeclared
    have ht : N.Coherent t.toSurroundings := Naming.Holds.classDef hdeclared hfit.nodup
      hfit.ready.filed (.refl _) hnames (hs.mono (hfit.class_sub hdeclared))
    have htspelled : t.Spelled := Surroundings.Spelled.invariant.classDef hdeclared hspelled
    have hclass : (Task.members info ⟨info.name, c.parent⟩ c.members c.line).Initializes N := by
      rintro _ ⟨⟩
      exact ⟨ht.plain_className hfound, htspelled c.id info hfound⟩
    exact ⟨.nil, (ih (hfit.classDef hdeclared hfound _ _)
      (fun n hn => hnames n (Task.class_names c info c.line hn)) .nil hclass ht htspelled hlog
      (hscripts.congr huntouched.scripts)).2⟩
  | @script task s t script log out hopens hrun ih =>
    obtain ⟨hscope, hinner⟩ := hopens.names_subset
    obtain ⟨hstart, hnone⟩ := hopens.invoking hprologue
    have hopened : (s.opened script.scope script.slots).Spelled := hspelled
    have hfit' := hfit.script hopens
    obtain ⟨hcommands, ht⟩ := ih hfit' (fun n hn => hnames n (hinner hn)) hnone
      (hopens.info hinfo) (hs.opened script.slots fun c hc n hn => hnames n (hscope c hc hn))
      hopened (fun q e hin => hlog q e (List.mem_append_right _ hin)) hscripts
    have hclosed : (s.closed t).Each (ChangesOnly G) := ht
    have hscript := ((ChangesOnly.declarations (G := G) t.allocator.preamble).append
      (.invoking hstart)).append hcommands
    exact ⟨.nil, hclosed.stored _ _ hscript⟩
  | @constructor info scope ms line id bodyLine body s t log out hfound _ ih =>
    exact ⟨.nil, (ih (hfit.constructor hfound _ _)
      (fun n hn => hnames n (Task.constructor_names hfound _ _ _ hn)) (.single _) nofun hs hspelled hlog
      hscripts).2⟩
  | defaulted scope line _ s => exact ⟨.nil, hscripts.stored _ _ (.invoking (.single _))⟩

namespace Session

variable {s : Session} {u : CompilationUnit}

/-- Somewhere in the unit the target of an assignment or an update denotes a function, class or method
with the path. -/
def Reassigned (s : Session) (u : CompilationUnit) (path : String) : Prop :=
  ∃ q e part target symbol, .lowers q e ∈ s.log u ∧ part ∈ e.parts false ∧
    part.changed? = some target ∧ q.denoted? target = some symbol ∧ symbol.kind.isOwn = true ∧
    symbol.path = path

end Session

/-- With names without a slash, a target lies outside the unit or denotes something of it. -/
theorem Naming.Sees.target {context : String} {T : DeclTable} {q : Surroundings} {e target : Expr}
    (h : (slashFree context).Sees T q e) (hnames : target.names ⊆ e.names) {slot : String}
    (hslot : q.targetSlot target = .ok slot) :
    Leaves context slot ∨ ∃ symbol, q.denoted? target = some symbol ∧ symbol.kind.isOwn = true ∧
      symbol.path = slot := by
  have hplain : ∀ n ∈ target.unwrapped.names, SlashFree n := fun n hn =>
    h.names n (hnames (target.names_unwrapped ▸ hn))
  rcases Surroundings.targetSlot_cases hslot with ⟨symbol, hsymbol, rfl⟩ | ⟨mark, name, he, hparam⟩ |
    ⟨mark, object, name, module, he, hmodule, rfl⟩ | ⟨mark, he, -, -⟩
  · obtain ⟨key, hlookup⟩ := Surroundings.denoted_lookup hsymbol
    cases h.coherent.symbols.lookup hlookup with
    | slot name hpath _ => exact .inl (SlashFree.leaves hpath context)
    | imported bound hmodule hname => exact .inl (leaves_qualify hmodule.1 hname hmodule.2)
    | namespaceName bound hmodule => exact .inl (SlashFree.leaves hmodule.1 context)
    | callable name hk hkind =>
      refine .inr ⟨_, hsymbol, ?_, rfl⟩
      rcases hkind with rfl | rfl | rfl <;> rfl
    | classDef name hinfo => exact .inr ⟨_, hsymbol, rfl, rfl⟩
  · exact .inl ((h.coherent.param_slashFree hparam).leaves context)
  · rw [he] at hplain
    obtain ⟨hforeign, hne⟩ := h.coherent.namespace_foreign hmodule
    exact .inl (leaves_qualify hforeign (hplain name List.mem_cons_self) hne)
  · rw [he] at hplain
    exact .inl (SlashFree.leaves (hplain slot List.mem_cons_self) context)

namespace Session

variable {s : Session} {u : CompilationUnit} {c : Compilation}

/-- The surroundings that a unit leaves behind hold what its work ended with. -/
theorem compiled_stocked (hcompile : (s.compile u).1 = .ok c) :
    (s.compile u).2.Stocked u ∧ ∀ q e, .lowers q e ∈ s.log u → q.Stocked u := by
  obtain ⟨out, t, hdeclared, hruns, -, hfinal⟩ := compile_ok hcompile
  have hinvariant := Surroundings.StockedIn.invariant u
  have hstart := hinvariant.declared hdeclared
    (fun s line i hi hs => hs.imports s hi) (.begin s u)
  obtain ⟨ht, hlog⟩ := hruns.keeps hinvariant hstart
  refine ⟨?_, fun q e hq => (hlog q e hq).toStocked⟩
  have hprimary : (t.withPrimary u.context out.commands).toSurroundings.StockedIn u := by
    rw [t.withPrimary_toSurroundings]
    exact ht
  rw [hfinal]
  exact ⟨hprimary.symbols, hprimary.callables⟩

/-- **What is assigned.**  When a unit compiles:

1. wherever one of its expressions is lowered, and after it, an assignment or an update ends with an
   operation on the slot of its target, and that is a parameter, a variable, a field, something
   imported, a name without a meaning, or a function, class or method of the unit;
2. a target is refused as not assignable for its form alone;
3. if the names of the unit have no slash and no import has its context, its scripts change a path of
   the unit only where a target denotes the function, class or method with this path. -/
theorem assigned_slots {document : Json.Value} {fallback : String}
    (hload : Document.load document fallback = .ok u) (hcompile : (s.compile u).1 = .ok c) :
    (∀ q : Surroundings, (∃ e₀, .lowers q e₀ ∈ s.log u) ∨ q = (s.compile u).2.toSurroundings →
      ∀ (e target : Expr), e.changed? = some target →
        (∀ {fx gx : Effects} {commands : List Command}, Evaluates q .dropped e fx commands gx →
          ∃ slot before code register, q.targetSlot target = .ok slot ∧ q.Target u target slot ∧
            commands = before ++ [.operation q.frame slot code register]) ∧
        ((∃ err kind, q.targetSlot target = .error err ∧ err.cause = .notAssignable kind) ↔
          (∀ mark name, target.unwrapped ≠ .identifier mark name) ∧
            (∀ mark object name, target.unwrapped ≠ .member mark object name) ∧
            ∀ mark, target.unwrapped = .this mark → q.scope.enclosing ≠ none)) ∧
      ((∀ n ∈ u.names, SlashFree n) →
        (∀ line i, .imports line i ∈ u.statements → moduleContext i.module ≠ u.context) →
        ∀ {name : String} {script : List Command}, c.scripts[name]? = some script →
          ∀ d ∈ script, ∀ path, d.target? = some (qualify u.context path) →
            s.Reassigned u (qualify u.context path)) := by
  obtain ⟨hfinal, hlogged⟩ := compiled_stocked hcompile
  refine ⟨fun q hq e target hchanged => ⟨fun h => ?_, Surroundings.targetSlot_notAssignable⟩, ?_⟩
  · have hstocked : q.Stocked u := by
      rcases hq with ⟨e₀, hq⟩ | rfl
      · exact hlogged q e₀ hq
      · exact hfinal
    obtain ⟨slot, before, code, register, hslot, hlast⟩ := h.changed_last hchanged
    exact ⟨slot, before, code, register, hslot, hstocked.target hslot, hlast⟩
  · intro hnames himports name script hscript
    have hids := Document.load_nodup hload
    obtain ⟨out, t, hdeclared, hruns, rfl, -⟩ := compile_ok hcompile
    have hfit := declared_fit hids hdeclared
    have hplain : ∀ n ∈ (Task.stmts u.statements).names, (Naming.slashFree u.context).plain n := hnames
    have hcoherent := declared_coherent hids hdeclared (.slashFree u.context) rfl hplain
      fun line i hi => ⟨slashFree_moduleContext i.module, himports line i hi⟩
    have hsees := (hruns.coherent hfit hplain hcoherent).2
    let G : String → Prop := fun x => Leaves u.context x ∨ s.Reassigned u x
    have hwrites : ∀ q e, .lowers q e ∈ s.log u → ∀ a b slot, Writes q e a b slot → G slot := by
      intro q e hq a b slot hwrites
      have hq' := hsees q e hq
      cases hwrites with
      | assigned h =>
        obtain ⟨part, hpart, target, hchanged, hslot⟩ := h
        have hnames' := List.Subset.trans (Expr.changed_names hchanged) (Expr.names_of_part e hpart)
        refine (hq'.target hnames' hslot).imp_right fun ⟨symbol, hsymbol, hown, hpath⟩ => ?_
        exact ⟨q, e, part, target, symbol, hq, hpart, hchanged, hsymbol, hown, hpath⟩
      | filled h =>
        obtain ⟨part, -, id, k, -, hk, hslot⟩ := h
        have hfree := hq'.coherent.slot_slashFree hk (List.mem_append_left _ hslot)
        exact .inl (hfree.leaves u.context)
      | minted h =>
        obtain ⟨n, -, -, rfl⟩ := h
        exact .inl ((slashFree_register n).leaves u.context)
    have hstart : (s.declared u).Each (ChangesOnly G) :=
      Each.congr (.begin s u) (Untouched.statements hdeclared).scripts
    have hspelled := Surroundings.Spelled.invariant.declared hdeclared
      (fun s line i _ hs id info hinfo => hs id info ((s.registeredAll_decls _).1 ▸ hinfo)) (.begin s u)
    obtain ⟨hcommands, hothers⟩ := hruns.changesOnly (N := .slashFree u.context) (G := G)
      (fun x hx => .inl (SlashFree.leaves hx u.context)) hfit hplain .nil nofun hcoherent hspelled hwrites
      hstart
    have hall : ChangesOnly G script := by
      by_cases hname : name = u.context
      · subst hname
        obtain rfl := Option.some.inj ((t.withPrimary_script u.context out.commands).symm.trans hscript)
        exact (ChangesOnly.declarations _).append (hcommands.bracket t.frame)
      · exact hothers name script ((t.withPrimary_other out.commands hname).symm.trans hscript)
    intro d hd path hpath
    exact (hall d hd _ hpath).resolve_left fun hleaves => hleaves path rfl

/-! A unit that assigns to a function. -/

/-- `function f() {} f = 1` -/
def replacingDocument : Json.Value :=
  .object [("statements", .array [namedNode "FunctionDeclaration" "f" [("body", .array [])],
    .object [("kind", .string "ExpressionStatement"), ("expression", .object [
      ("kind", .string "BinaryExpression"), ("left", namedNode "Identifier" "f" []),
      ("operator", .string "="),
      ("right", .object [("kind", .string "NumericLiteral"), ("value", .string "1")])])]])]

/-- Its assignment. -/
def replacingExpr : Expr :=
  .binary ⟨0, none⟩ (.identifier ⟨0, none⟩ "f") .assign (.number ⟨0, none⟩ (.ofInt 1))

/-- The unit of the document. -/
def replacingUnit : CompilationUnit where
  fileName := "main.ts"
  context := "main"
  statements := [.function ⟨0, some "f", [], some [], false, 0⟩, .expression 0 replacingExpr]
  declCount := 1

/-- Where the assignment is lowered. -/
def replacingSession : Session := declared {} replacingUnit

/-- The script changes the path of the function since a target denotes the function. -/
theorem assigned_slots_replacing :
    ∃ c script, Document.load replacingDocument "main.ts" = .ok replacingUnit ∧
      (compile {} replacingUnit).1 = .ok c ∧ c.scripts["main"]? = some script ∧
      .operation (some "main") "main/f" .assign "register1" ∈ script ∧
      Reassigned {} replacingUnit "main/f" := by
  have hload : Document.load replacingDocument "main.ts" = .ok replacingUnit := rfl
  obtain ⟨c, hc⟩ : ∃ c, (compile {} replacingUnit).1 = .ok c := exists_compilation (by decide +kernel)
  have hscript : (compile {} replacingUnit).1.toOption.bind (·.scripts["main"]?) =
      some [.declare "register1", .summon "main", .set (some "main") "register1" "1",
        .operation (some "main") "main/f" .assign "register1", .kill "main"] := by decide +kernel
  rw [hc] at hscript
  have himports : ∀ line i, .imports line i ∈ replacingUnit.statements →
      moduleContext i.module ≠ replacingUnit.context := by
    intro line i hi
    simp [replacingUnit] at hi
  refine ⟨c, _, hload, hc, hscript, by decide, ?_⟩
  exact (assigned_slots hload hc).2 (by decide +kernel) himports hscript
    (.operation (some "main") "main/f" .assign "register1") (by decide) "f" rfl

/-- **A function may be assigned to.**  The target denotes the function, and yet the assignment is
lowered, to an operation on the path of its script. -/
theorem function_assigned :
    ∃ symbol out gx, Document.load replacingDocument "main.ts" = .ok replacingUnit ∧
      (compile {} replacingUnit).1.toOption.isSome = true ∧
      .lowers replacingSession.toSurroundings replacingExpr ∈ log {} replacingUnit ∧
      replacingSession.denoted? (.identifier ⟨0, none⟩ "f") = some symbol ∧ symbol.kind = .function ∧
      symbol.path = "main/f" ∧
      (Lower.expr replacingSession.toSurroundings replacingExpr).run replacingSession.toEffects =
        (.ok out, gx) ∧
      .operation (some "main") "main/f" .assign "register1" ∈ out.commands := by
  refine ⟨⟨"f", "main/f", .function, some 0⟩, _, _, rfl, by decide +kernel, ?_, by decide +kernel, rfl, rfl,
    rfl, by decide⟩
  have hlog : log {} replacingUnit = (log {} replacingUnit).take 1 ++
      [.lowers replacingSession.toSurroundings replacingExpr] := rfl
  rw [hlog]
  exact List.mem_append_right _ List.mem_cons_self

end Session

end FrameScript
