/-
  Slots are declared.

  If the names of a unit do not end in a digit, then a register that does is a slot or a scratch
  register, and it is declared by one of the scripts.

  Seen from the middle of a unit, names stand for slots that are declared in its end
  (`Outlook.Covers`).  Lowering keeps it so, and its commands and scripts name no other registers
  (`Runs.backs`).  When a function or class is declared, its body has not been lowered yet; that it
  will be is known from the run of the whole.

  One thing gets through: the id of a function or class without a name ends in a digit, and an empty
  name leads from the members of the class to the class itself.
-/
import FrameScript.Proofs.Dangling
import FrameScript.Proofs.Operands
import FrameScript.Proofs.Outlook
import FrameScript.Proofs.Shapes

namespace FrameScript

open Source

/-! ## What names stand for in the end -/

namespace Outlook

variable (o : Outlook)

/-- The spelling of names that this is about.  The empty name is one only if the paths of functions
and classes without a name count as declared. -/
def Plain (name : String) : Prop :=
  endsInDigit name = false ∧ (name = "" → ∀ n, o.Backed (qualify o.context (mintedId defaultStem n)))

/-- The symbol may stand under a name: it has a declared slot, or the path of something without a
name, under a name that ends in a digit as well. -/
structure Stands (key : String) (symbol : Symbol) : Prop where
  path : o.Backed symbol.path ∨
    endsInDigit key = true ∧ ∃ n, symbol.path = qualify o.context (mintedId defaultStem n)
  decl : ∀ id, symbol.decl = some id → o.Live id

/-- Names stand for slots that are declared in the end. -/
structure Covers (q : Surroundings) : Prop where
  frame_eq : q.frame = some o.context
  symbols : q.symbols.AllAt o.Stands
  constructors : ∀ i info id, q.decls.class? i = some info → info.constructor = some id → o.Live id
  owner : ∀ id, q.scope.owner = some id → o.Live id
  parents : ∀ c, q.scope.enclosing = some c → ∀ name ∈ c.names, o.Plain name

/-- The change keeps it so. -/
def Allows : Change → Prop
  | .counts _ | .records _ (.callable _) => True
  | .names symbol => o.Stands symbol.name symbol
  | .records _ (.classInfo info) => ∀ id, info.constructor = some id → o.Live id

variable {o}

/-- A path that is made from a plain name. -/
theorem stands_path {key path : String} {kind : SymbolKind} {decl : Option DeclId}
    (hpath : endsInDigit path = false) (hdecl : ∀ id, decl = some id → o.Live id) :
    o.Stands key ⟨key, path, kind, decl⟩ :=
  ⟨.inl (o.backed_of_plain hpath), hdecl⟩

/-- A path that is made from the name that a declaration goes by. -/
theorem stands_goesBy {declared : Option String} {name : String} (h : GoesBy declared name)
    (hplain : ∀ n ∈ declared.toList, o.Plain n) (kind : SymbolKind) {id : DeclId} (hlive : o.Live id) :
    o.Stands name ⟨name, qualify o.context name, kind, some id⟩ := by
  have hdecl : ∀ id', some id = some id' → o.Live id' := fun id' hid => Option.some.inj hid ▸ hlive
  cases declared with
  | some declared =>
    obtain rfl : name = declared := h
    refine stands_path ?_ hdecl
    rw [endsInDigit_qualify]
    exact (hplain name List.mem_cons_self).1
  | none =>
    obtain ⟨n, rfl⟩ : ∃ n, name = mintedId defaultStem n := h
    exact ⟨.inr ⟨endsInDigit_mintedId _ n, n, rfl⟩, hdecl⟩

namespace Covers

variable {s t : Session} {q : Surroundings}

theorem qualify_eq (h : o.Covers q) (script : String) :
    q.qualify script = FrameScript.qualify o.context script :=
  Surroundings.qualify_of_frame h.frame_eq script

theorem registered (h : o.Covers s.toSurroundings) {symbol : Symbol} (hsymbol : o.Stands symbol.name symbol) :
    o.Covers (s.registered symbol).toSurroundings :=
  ⟨h.frame_eq, h.symbols.register hsymbol, h.constructors, h.owner, h.parents⟩

theorem changed (h : o.Covers s.toSurroundings) {change : Change} (hchange : o.Allows change) :
    o.Covers (s.changed change).toSurroundings := by
  cases change with
  | counts n => exact ⟨h.frame_eq, h.symbols, h.constructors, h.owner, h.parents⟩
  | names symbol => exact h.registered hchange
  | records id d =>
    refine ⟨h.frame_eq, h.symbols, fun i info c hinfo hc => ?_, h.owner, h.parents⟩
    rcases Session.recorded_class_cases hinfo with rfl | hold
    · exact hchange c hc
    · exact h.constructors i info c hold hc

theorem changes {P : Change → Prop} (h : o.Covers s.toSurroundings) (hchanges : Changes P s t)
    (hP : ∀ change, P change → o.Allows change) : o.Covers t.toSurroundings :=
  hchanges.keeps (I := fun s => o.Covers s.toSurroundings)
    (fun _ _ hchange hs => hs.changed (hP _ hchange)) h

theorem opened (h : o.Covers s.toSurroundings) {scope : LexicalScope} (slots : List String)
    (howner : ∀ id, scope.owner = some id → o.Live id)
    (hscope : ∀ c, scope.enclosing = some c → ∀ name ∈ c.names, o.Plain name) :
    o.Covers (s.opened scope slots).toSurroundings :=
  ⟨h.frame_eq, h.symbols.enter, h.constructors, howner, hscope⟩

theorem closed (h : o.Covers s.toSurroundings) (ht : o.Covers t.toSurroundings) :
    o.Covers (s.closed t).toSurroundings :=
  ⟨ht.frame_eq, ht.symbols.exit, ht.constructors, h.owner, h.parents⟩

theorem stored (h : o.Covers s.toSurroundings) (name : String) (body : List Command) (line : Nat) :
    o.Covers (s.stored name body line).toSurroundings := by
  obtain ⟨ws, hws⟩ := s.stored_eq_noting name body line
  rw [hws]
  exact ⟨h.frame_eq, h.symbols, h.constructors, h.owner, h.parents⟩

theorem withVariable (h : o.Covers s.toSurroundings) {name : String}
    (hend : (s.withVariable name).LeadsTo o) : o.Covers (s.withVariable name).toSurroundings := by
  have hdeclaring : o.Covers ((s.counted 1).declaring [s.variableSlot name]).toSurroundings :=
    ⟨h.frame_eq, h.symbols, h.constructors, h.owner, h.parents⟩
  refine hdeclaring.registered ⟨.inl (hend.held _ (List.mem_append_left _ ?_)), nofun⟩
  exact List.mem_append_right _ List.mem_cons_self

/-- Plain names stand for declared slots.  The key of a member is plain where its name is, unless the
name is empty. -/
theorem supplies (h : o.Covers q) (hsub : q.decls.Sub o.records) : q.Supplies o.Plain o.Backed where
  name := fun hname => o.backed_of_plain hname.1
  qualified := fun module name hname => by
    refine o.backed_of_plain ?_
    rw [endsInDigit_qualify]
    exact hname.1
  symbol := fun {key symbol} hkey hsymbol => by
    rcases (h.symbols.lookup hsymbol).path with hbacked | ⟨hdigit, n, hpath⟩
    · exact hbacked
    · rcases hkey with hplain | ⟨owner, name, hplain, rfl⟩
      · rw [hplain.1] at hdigit
        cases hdigit
      · by_cases hempty : name = ""
        · rw [hpath]
          exact hplain.2 hempty n
        · rw [memberKey, endsInDigit_append owner hempty, hplain.1] at hdigit
          cases hdigit
  callee := fun hsymbol hid hk => (h.symbols.lookup hsymbol).decl _ hid _ (hsub.callable hk)
  constructor := fun hinfo hid hk => h.constructors _ _ _ hinfo hid _ (hsub.callable hk)
  owner := fun hk => by
    obtain ⟨id, hid, hk⟩ := Option.bind_eq_some_iff.mp hk
    exact h.owner id hid _ (hsub.callable hk)

end Covers

end Outlook

theorem FunctionChange.allowed {o : Outlook} {q : Surroundings} (hq : o.Covers q) {f : FunctionDecl}
    {change : Change} (hnames : ∀ n ∈ f.names, o.Plain n) (hlive : o.Live f.id)
    (h : FunctionChange q f change) : o.Allows change := by
  cases h with
  | counts n => trivial
  | symbol hname =>
    rw [hq.qualify_eq]
    refine Outlook.stands_goesBy hname (fun n hn => hnames n ?_) _ hlive
    exact f.names_subset (List.mem_append_left _ hn)
  | record _ => trivial

theorem ClassChange.allowed {o : Outlook} {q : Surroundings} (hq : o.Covers q) {c : ClassDecl}
    {info : ClassInfo} {change : Change} (hnames : ∀ n ∈ c.names, o.Plain n) (hinfo : info.Describes c)
    (hrecord : o.records.class? c.id = some info) (hsettles : o.Settles info c.members)
    (h : ClassChange q c info change) : o.Allows change := by
  rw [c.names_eq] at hnames
  cases h with
  | counts n => trivial
  | symbol =>
    rw [hq.qualify_eq]
    refine Outlook.stands_goesBy hinfo.name (fun n hn => hnames n ?_) _ (Outlook.live_class hrecord)
    exact List.mem_append_left _ (List.mem_append_left _ hn)
  | @member m _ hm h =>
    have hmember : ∀ n ∈ m.names, o.Plain n :=
      fun n hn => hnames n (List.mem_append_right _ (mem_memberNames hm hn))
    cases h with
    | counts m n => trivial
    | @method f isStatic name hname hbody =>
      rw [hq.qualify_eq]
      have hplain : o.Plain name := by
        refine hmember name (f.names_subset (List.mem_append_left _ ?_))
        rw [hname]
        exact List.mem_cons_self
      refine Outlook.stands_path ?_ fun id hid => ?_
      · rw [endsInDigit_qualify, endsInDigit_methodScript]
        exact hplain.1
      · obtain rfl := Option.some.inj hid
        exact hsettles.methods f isStatic hm (by rw [hname]; exact Option.some_ne_none _) hbody
    | methodRecord _ _ _ => trivial
    | constructorRecord _ _ => trivial
    | property p hfield => exact ⟨.inl (hsettles.fields _ hfield), nofun⟩
  | record => exact hsettles.constructor

theorem importSymbols_stand {o : Outlook} {i : Import} (hmodule : endsInDigit (moduleContext i.module) = false)
    (hnames : ∀ n ∈ i.names, o.Plain n) : ∀ symbol ∈ importSymbols i, o.Stands symbol.name symbol := by
  intro symbol hsymbol
  rcases List.mem_append.mp hsymbol with hsymbol | hsymbol
  · rcases List.mem_append.mp hsymbol with hsymbol | hsymbol
    · obtain ⟨name, hname, rfl⟩ := Option.map_eq_some_iff.mp (Option.mem_toList.mp hsymbol)
      refine Outlook.stands_path ?_ nofun
      rw [endsInDigit_qualify]
      exact (hnames name (List.mem_append_left _ (List.mem_append_left _ (Option.mem_toList.mpr hname)))).1
    · obtain ⟨name, -, rfl⟩ := Option.map_eq_some_iff.mp (Option.mem_toList.mp hsymbol)
      exact Outlook.stands_path hmodule nofun
  · obtain ⟨n, hn, rfl⟩ := List.mem_map.mp hsymbol
    refine Outlook.stands_path ?_ nofun
    rw [endsInDigit_qualify]
    refine (hnames n.name (List.mem_append_right _ ?_)).1
    exact List.mem_flatMap.mpr ⟨n, hn, List.mem_cons_self⟩

namespace Outlook.Covers

variable {o : Outlook} {s t : Session}

theorem function (h : o.Covers s.toSurroundings) {f : FunctionDecl} (hdeclared : FunctionDeclared s f t)
    (hnames : ∀ n ∈ f.names, o.Plain n) (hlive : f.body ≠ none → o.Live f.id) :
    o.Covers t.toSurroundings := by
  rcases hdeclared.changes (q := s.toSurroundings) rfl with rfl | ⟨hbody, hchanges⟩
  · exact h
  · exact h.changes hchanges fun _ hchange => hchange.allowed h hnames (hlive hbody)

theorem classDef (h : o.Covers s.toSurroundings) {c : ClassDecl} (hdeclared : ClassDeclared s c t)
    (hnames : ∀ n ∈ c.names, o.Plain n)
    (hsettles : ∀ info, (c.isDeclared || c.isAbstract) = false → t.decls.class? c.id = some info →
      info.Describes c → o.records.class? c.id = some info ∧ o.Settles info c.members) :
    o.Covers t.toSurroundings := by
  rcases hdeclared.changes (q := s.toSurroundings) rfl with rfl | ⟨hown, info, hdescribes, hinfo, hchanges⟩
  · exact h
  · obtain ⟨hrecord, hsettled⟩ := hsettles info hown hinfo hdescribes
    exact h.changes hchanges fun _ hchange => hchange.allowed h hnames hdescribes hrecord hsettled

end Outlook.Covers

/-! ## Lowering -/

/-- All registers that the commands name count as declared. -/
def Outlook.Backs (o : Outlook) (commands : List Command) : Prop :=
  ∀ c ∈ commands, ∀ x ∈ c.operands, o.Backed x

namespace Outlook.Backs

variable {o : Outlook} {xs ys : List Command}

theorem nil : o.Backs [] := fun _ hc => absurd hc List.not_mem_nil

theorem append (hx : o.Backs xs) (hy : o.Backs ys) : o.Backs (xs ++ ys) := by
  intro c hc
  rcases List.mem_append.mp hc with hc | hc
  · exact hx c hc
  · exact hy c hc

theorem of_invoking (h : Invoking xs) : o.Backs xs := by
  intro c hc x hx
  obtain ⟨path, rfl⟩ := h c hc
  exact absurd hx List.not_mem_nil

theorem declarations (names : List String) : o.Backs (FrameScript.declarations names) := by
  intro c hc x hx
  obtain ⟨name, -, rfl⟩ := List.mem_map.mp hc
  exact absurd hx List.not_mem_nil

end Outlook.Backs

/-- The registers that are minted for an expression are declared by the script around it. -/
theorem Lower.Stages.backs {o : Outlook} {t : Session} {fx : Effects} {commands : List Command}
    (h : Lower.Stages o.Backed t.allocator fx.allocator commands []) (hend : (t.withEffects fx).LeadsTo o) :
    o.Backs commands := by
  obtain ⟨k, hk, hstaged, -⟩ := h
  intro c hc x hx
  rcases hstaged.operands c hc x hx with hslot | hregister
  · exact hslot
  · refine hend.held x (List.mem_append_left _ ?_)
    show x ∈ fx.allocator.preamble
    rw [hk]
    exact List.mem_append_right _ hregister

/-- The slot that the value of an expression goes into. -/
theorem Evaluation.backed {o : Outlook} {task : Task} {s t : Session} {use : Use} {e : Expr} {flow : Flow}
    (h : Evaluation task s t use e flow)
    (hinfo : ∀ info, task.info? = some info → ∀ f ∈ info.fields, o.Backed f.2)
    (hs : o.Covers s.toSurroundings) (hend : t.LeadsTo o) : ∀ slot, use = .stored slot → o.Backed slot := by
  intro slot huse
  cases h with
  | initializer _ _ =>
    cases huse
    exact hend.held _ (List.mem_append_left _ (List.mem_append_right _ List.mem_cons_self))
  | expression line e => cases huse
  | returned line e hslot =>
    cases huse
    obtain ⟨k, hk, hslot⟩ := Option.bind_eq_some_iff.mp hslot
    obtain ⟨id, hid, hk⟩ := Option.bind_eq_some_iff.mp hk
    exact hs.owner id hid k (hend.sub.callable hk) slot (List.mem_append_right _ (Option.mem_toList.mpr hslot))
  | discarded line e _ => cases huse
  | @field info p e _ _ hslot =>
    cases huse
    obtain ⟨f, hfind, rfl⟩ := Option.map_eq_some_iff.mp hslot
    exact hinfo info rfl f (List.mem_of_find?_eq_some hfind)

/-- **Lowering names declared slots only.**  A piece of work on the way to the end of a unit keeps
names standing for declared slots, and its commands and scripts name no other registers. -/
theorem Runs.backs {o : Outlook} {task : Task} {s t : Session} {log : List Event} {out : Emitted Flow}
    (h : Runs task s log out t) (hfit : task.Fit s.decls) (hnames : ∀ n ∈ task.names, o.Plain n)
    (hprologue : Invoking task.prologue)
    (hinfo : ∀ info, task.info? = some info → ∀ f ∈ info.fields, o.Backed f.2) (hend : t.LeadsTo o)
    (hs : o.Covers s.toSurroundings) (hscripts : s.Each o.Backs) :
    o.Covers t.toSurroundings ∧ t.Each o.Backs ∧ o.Backs out.commands := by
  have hnothing : Invoking [] := .nil
  have hnoInfo : ∀ info, (none : Option ClassInfo) = some info → ∀ f ∈ info.fields, o.Backed f.2 := nofun
  induction h with
  | idle h =>
    obtain ⟨ws, rfl⟩ := h.eq_noting
    exact ⟨hs, hscripts, .nil⟩
  | seq hsplit hfirst hrest ihfirst ihrest =>
    obtain ⟨hn, hn'⟩ := Task.split_names hsplit
    obtain ⟨hp, hp'⟩ := Task.split_prologue hsplit
    obtain ⟨hi, hi'⟩ := Task.split_info hsplit hinfo
    have hfit' := hfit.rest hsplit hfirst
    obtain ⟨ht, htscripts, hcommands⟩ := ihfirst (hfit.first hsplit) (fun n hin => hnames n (hn hin))
      (hp ▸ hnothing) hi (hend.earlier hrest.grows (hrest.sub hfit')) hs hscripts
    obtain ⟨hu, huscripts, hcommands'⟩ := ihrest hfit' (fun n hin => hnames n (hn' hin))
      (hp' ▸ hnothing) hi' hend ht htscripts
    exact ⟨hu, huscripts, hcommands.append hcommands'⟩
  | @returned st s t log commands rest _ ih =>
    obtain ⟨ws, hws⟩ := t.skipping_eq_noting rest
    rw [hws] at hend ⊢
    exact ih (hfit.first rfl) (fun n hin => hnames n (List.mem_append_left _ hin)) hnothing hnoInfo
      (hend.earlier (.noting t ws) (.refl _)) hs hscripts
  | inside hinside _ ih =>
    refine ih (hfit.inside hinside) (Task.inside_names hinside ▸ hnames)
      (Task.inside_prologue hinside ▸ hnothing) ?_ hend hs hscripts
    cases Task.encloses hinside <;> exact hnoInfo
  | declares _ _ s => exact ⟨hs.withVariable hend, hscripts, .nil⟩
  | @evaluates task s t use e flow commands fx htask he =>
    have hend' : t.LeadsTo o := hend.earlier (.withEffects t he.extends) (.refl _)
    have hprepared : o.Covers t.toSurroundings ∧ t.Each o.Backs := by
      rcases htask.prepared with ⟨ws, rfl⟩ | ⟨_, name, _, _, rfl⟩
      · exact ⟨hs, hscripts⟩
      · exact ⟨hs.withVariable hend', hscripts⟩
    obtain ⟨ht, htscripts⟩ := hprepared
    have hstages := he.staged (ht.supplies hend'.sub) (fun n hn => hnames n (htask.names_subset hn))
      (htask.backed hinfo hs hend')
    exact ⟨ht, htscripts, hstages.backs hend⟩
  | @function f body s t u log out hbody hdeclared hrun ih =>
    have hfit' := hfit.function hbody hdeclared f.line t.scope.enclosing []
    have ht : o.Covers t.toSurroundings := hs.function hdeclared hnames
      ((Runs.function hbody hdeclared hrun).live_function hfit hend)
    have hinner : ∀ n ∈ (Task.callable f.id f.line t.scope.enclosing [] body).names, o.Plain n := by
      intro n hn
      rcases Task.function_names hbody hn with ⟨c, hc, hn⟩ | hn
      · exact ht.parents c hc n hn
      · exact hnames n hn
    have htscripts := hscripts.congr (Session.Untouched.function hdeclared).scripts
    obtain ⟨ws, hws⟩ := t.warnedIf_eq_noting f.isAsync f.line "async function is lowered synchronously"
    rw [hws] at ih
    obtain ⟨hu, huscripts, -⟩ := ih hfit' hinner hnothing hnoInfo hend ht htscripts
    exact ⟨hu, huscripts, .nil⟩
  | @method info scope f isStatic body s t log out hbody hrun ih =>
    obtain ⟨ws, hws⟩ := s.warnedIf_eq_noting f.isAsync f.line "async method is lowered synchronously"
    rw [hws] at ih
    have hinner : ∀ n ∈ (Task.callable f.id f.line (some scope) [] body).names, o.Plain n :=
      fun n hn => hnames n (Task.method_names hbody info scope isStatic _ _ hn)
    obtain ⟨ht, htscripts, -⟩ := ih (hfit.method hbody _ _ _) hinner hnothing hnoInfo hend hs hscripts
    exact ⟨ht, htscripts, .nil⟩
  | @classDef c info s t u log out hown hdeclared hfound hrun ih =>
    have hfit' := hfit.classDef hdeclared hfound ⟨info.name, c.parent⟩ c.line
    have ht : o.Covers t.toSurroundings := by
      refine hs.classDef hdeclared hnames fun info' _ hinfo' hdescribes => ?_
      obtain rfl : info' = info := Option.some.inj (hinfo'.symm.trans hfound)
      have hrecord := hend.sub.classInfo ((hrun.sub hfit').classInfo hfound)
      exact ⟨hrecord, hrun.settles hfit' hend hdescribes.constructor⟩
    have hclass : ∀ info', (Task.members info ⟨info.name, c.parent⟩ c.members c.line).info? = some info' →
        ∀ f ∈ info'.fields, o.Backed f.2 := by
      rintro _ ⟨⟩
      obtain ⟨_, _, _, _, _, rfl, hfields, hbodies⟩ := hrun.parts rfl rfl
      exact hfields.backs_fields (hend.earlier hbodies.grows (hbodies.sub (hfit'.rest rfl hfields)))
    have hinner : ∀ n ∈ (Task.members info ⟨info.name, c.parent⟩ c.members c.line).names, o.Plain n :=
      fun n hn => hnames n (Task.class_names c info c.line hn)
    have htscripts := hscripts.congr (Session.Untouched.classDef hdeclared).scripts
    obtain ⟨hu, huscripts, -⟩ := ih hfit' hinner hnothing hclass hend ht htscripts
    exact ⟨hu, huscripts, .nil⟩
  | @script task s t script log out hopens hrun ih =>
    have hwhole := Runs.script hopens hrun
    have hfit' := hfit.script hopens
    have hend' : t.LeadsTo o := hend.script (preamble_subset_declaredBy _ _ _)
    obtain ⟨hscope, hbody⟩ := hopens.names_subset
    obtain ⟨hstart, hnone⟩ := hopens.invoking hprologue
    have howner : ∀ id, script.scope.owner = some id → o.Live id := by
      cases hopens with
      | callable hk line enclosing prologue body =>
        rintro _ ⟨⟩
        exact hwhole.live hfit hend hk
      | fields info scope ms line => exact nofun
    obtain ⟨ht, htscripts, hcommands⟩ := ih hfit' (fun n hn => hnames n (hbody hn)) hnone
      (hopens.info hinfo) hend'
      (hs.opened script.slots howner fun c hc n hn => hnames n (hscope c hc hn)) hscripts
    have hclosed : (s.closed t).Each o.Backs := htscripts
    have hscript := ((Outlook.Backs.declarations t.allocator.preamble).append (.of_invoking hstart)).append
      hcommands
    exact ⟨(hs.closed ht).stored _ _ _, hclosed.stored _ _ hscript, .nil⟩
  | @constructor info scope ms line id bodyLine body s t log out hfound hrun ih =>
    have hinner : ∀ n ∈ (Task.callable id bodyLine (some scope)
        [.invoke (s.qualify (classScript info.name))] body).names, o.Plain n :=
      fun n hn => hnames n (Task.constructor_names hfound _ _ _ hn)
    obtain ⟨ht, htscripts, -⟩ := ih (hfit.constructor hfound _ _) hinner (.single _) hnoInfo hend hs hscripts
    exact ⟨ht, htscripts, .nil⟩
  | defaulted scope line hnone s =>
    exact ⟨hs.stored _ _ _, hscripts.stored _ _ (.of_invoking (.single _)), .nil⟩

/-! ## Units -/

theorem Outlook.Covers.statements {o : Outlook} {s t : Session} {sts : List Stmt}
    (hdeclared : UnitDeclared s sts t) (hnodup : (declIds sts).Nodup)
    (hfree : ∀ i ∈ declIds sts, s.decls[i]? = none) (hsub : t.decls.Sub o.records)
    (hnames : ∀ n ∈ stmtNames sts, o.Plain n)
    (himports : ∀ line i, .imports line i ∈ sts → endsInDigit (moduleContext i.module) = false)
    (hlive : ∀ f, .function f ∈ sts → f.body ≠ none → o.Live f.id)
    (hsettles : ∀ c info, .classDef c ∈ sts → (c.isDeclared || c.isAbstract) = false →
      t.decls.class? c.id = some info → info.Describes c → o.Settles info c.members)
    (h : o.Covers s.toSurroundings) : o.Covers t.toSurroundings := by
  induction hdeclared with
  | nil s => exact h
  | @cons s t u st rest hfirst hrest ih =>
    rw [declIds] at hnodup hfree
    rw [stmtNames] at hnames
    obtain ⟨-, hnodup', hdisjoint⟩ := List.nodup_append'.mp hnodup
    have hfree' : ∀ i ∈ declIds rest, t.decls[i]? = none := by
      intro i hi
      rw [hfirst.decls_eq fun hin => hdisjoint hin hi]
      exact hfree i (List.mem_append_right _ hi)
    have hlater := hrest.sub hnodup' hfree'
    have hown := fun n hn => hnames n (List.mem_append_left _ hn)
    refine ih hnodup' hfree' hsub (fun n hn => hnames n (List.mem_append_right _ hn))
      (fun line i hi => himports line i (List.mem_cons_of_mem _ hi))
      (fun f hf => hlive f (List.mem_cons_of_mem _ hf))
      (fun c info hc => hsettles c info (List.mem_cons_of_mem _ hc)) ?_
    cases hfirst with
    | imports line i =>
      have hstand := importSymbols_stand (himports line i List.mem_cons_self) hown
      exact h.changes (.registeredAll (P := o.Allows) hstand s) fun _ hchange => hchange
    | function hf => exact h.function hf hown (hlive _ List.mem_cons_self)
    | classDef hc =>
      refine h.classDef hc hown fun info hkind hinfo hdescribes => ?_
      have hinfo' := hlater.classInfo hinfo
      exact ⟨hsub.classInfo hinfo', hsettles _ info List.mem_cons_self hkind hinfo' hdescribes⟩
    | nothing st => exact h

theorem Outlook.Backs.bracket {o : Outlook} {commands : List Command} (h : o.Backs commands)
    (frame : Frame) : o.Backs (frame.bracket commands) := by
  have hmark : ∀ {c : Command}, c.operands = [] → o.Backs [c] := by
    intro c hc d hd x hx
    rw [List.mem_singleton.mp hd, hc] at hx
    exact absurd hx List.not_mem_nil
  cases frame with
  | none => exact (Outlook.Backs.nil.append h).append .nil
  | some tag => exact ((hmark rfl).append h).append (hmark rfl)

namespace Session

variable {s : Session} {u : CompilationUnit} {c : Compilation}

/-- The end of a compiled unit.  A register that ends in a digit is declared there; or it is the path
of something without a name, which an empty name can lead to. -/
def outlook (u : CompilationUnit) (c : Compilation) (records : DeclTable) : Outlook where
  context := u.context
  records
  Backed x := endsInDigit x = true → x ∈ Scripts.declared c.scripts ∨
    "" ∈ u.names ∧ ∃ n, x = qualify u.context (mintedId defaultStem n)
  backed_of_plain := fun hplain hdigit => by
    rw [hplain] at hdigit
    cases hdigit

theorem outlook_plain {records : DeclTable} (hnames : ∀ n ∈ u.names, endsInDigit n = false) :
    ∀ n ∈ u.names, (outlook u c records).Plain n := by
  intro n hn
  refine ⟨hnames n hn, ?_⟩
  rintro rfl k -
  exact .inr ⟨hn, k, rfl⟩

theorem begin_covers {o : Outlook} (hcontext : o.context = u.context) :
    o.Covers (s.begin u).toSurroundings where
  frame_eq := by rw [hcontext]; rfl
  symbols := .empty _
  constructors := fun i info id hinfo _ => by
    rw [DeclTable.class?_none (s.begin_free u i)] at hinfo
    cases hinfo
  owner := nofun
  parents := nofun

/-- Where all statements of a unit end, what is held will be declared. -/
theorem outlook_leadsTo {t : Session} {commands : List Command}
    (hscripts : c.scripts = (t.withPrimary u.context commands).scripts)
    (hwarnings : c.warnings = (t.withPrimary u.context commands).warnings)
    (honce : ∀ w ∈ c.warnings, ∀ name, w.message ≠ producedTwice name) :
    t.LeadsTo (outlook u c t.decls) := by
  have hretains := t.withPrimary_retains u.context commands
  have hnone : ∀ name, ¬(t.withPrimary u.context commands).Twice name := by
    rintro name ⟨w, hw, hmessage⟩
    exact honce w (hwarnings ▸ hw) name hmessage
  refine ⟨.refl _, fun x hx _ => .inl ?_, fun name htwice => hnone name (htwice.mono hretains.warnings)⟩
  rw [hscripts]
  rcases List.mem_append.mp hx with hx | hx
  · refine Scripts.mem_declared.mpr ⟨_, _, t.withPrimary_script u.context commands, ?_⟩
    rw [declaredBy_append, declaredBy_declarations]
    exact List.mem_append_left _ hx
  · exact hretains.declared_subset hnone hx

/-- All scripts of a compiled unit name registers that its end accounts for. -/
theorem compiled_backs (hids : (declIds u.statements).Nodup)
    (hnames : ∀ n ∈ u.names, endsInDigit n = false)
    (himports : ∀ line i, .imports line i ∈ u.statements → endsInDigit (moduleContext i.module) = false)
    (hreached : skipped u.statements = []) (hcompile : (s.compile u).1 = .ok c)
    (honce : ∀ w ∈ c.warnings, ∀ name, w.message ≠ producedTwice name) :
    ∃ records, ∀ (name : String) (script : List Command), c.scripts[name]? = some script →
      (outlook u c records).Backs script := by
  obtain ⟨out, t, hdeclared, hruns, hc, -⟩ := compile_ok hcompile
  have hstored : c.scripts = (t.withPrimary u.context out.commands).scripts :=
    congrArg Compilation.scripts hc
  have hfit := declared_fit hids hdeclared
  have hend : t.LeadsTo (outlook u c t.decls) :=
    outlook_leadsTo hstored (congrArg Compilation.warnings hc) honce
  have hplain : ∀ n ∈ u.names, (outlook u c t.decls).Plain n := outlook_plain hnames
  -- the bodies of all functions and classes at the top are reached
  have hstart := Outlook.Covers.statements hdeclared hids (fun i _ => s.begin_free u i)
    (hruns.sub hfit) hplain himports
    (fun f hf hbody => by
      obtain ⟨s', log', out', t', hrun, hfit', -, hend'⟩ := hruns.reaches hfit hend hreached hf
      exact hrun.live_function hfit' hend' hbody)
    (fun cls info hcls hown hinfo hdescribes => by
      obtain ⟨s', log', out', t', hrun, hfit', hsub, hend'⟩ := hruns.reaches hfit hend hreached hcls
      exact hrun.settles_class hfit' hend' hown (hsub.classInfo hinfo) hdescribes)
    (begin_covers rfl)
  have hscripts : (s.declared u).Each (outlook u c t.decls).Backs :=
    Each.congr (.begin s u) (Untouched.statements hdeclared).scripts
  obtain ⟨-, hothers, hcommands⟩ := hruns.backs hfit hplain .nil nofun hend hstart hscripts
  refine ⟨t.decls, fun name script hscript => ?_⟩
  rw [hstored] at hscript
  by_cases hname : name = u.context
  · subst hname
    obtain rfl := Option.some.inj ((t.withPrimary_script u.context out.commands).symm.trans hscript)
    exact (Outlook.Backs.declarations _).append (hcommands.bracket t.frame)
  · exact hothers name script ((t.withPrimary_other out.commands hname).symm.trans hscript)

/-- **Every minted slot that is used is declared.**  In a loaded unit no name and no context of an
imported module ends in a digit, and no statement at the top is skipped.  If the unit compiles and no
script was produced twice, then every register that is named in any of its scripts and ends in a digit
is declared by exactly one command of all of its scripts.  The one exception is the path of a function
or class without a name, and only in a unit in which the empty name occurs. -/
theorem slots_declared {document : Json.Value} {fallback : String}
    (hload : Document.load document fallback = .ok u)
    (hnames : ∀ n ∈ u.names, endsInDigit n = false)
    (himports : ∀ line i, .imports line i ∈ u.statements → endsInDigit (moduleContext i.module) = false)
    (hreached : skipped u.statements = []) (hcompile : (s.compile u).1 = .ok c)
    (honce : ∀ w ∈ c.warnings, ∀ name, w.message ≠ producedTwice name) {name : String}
    {script : List Command} (hscript : c.scripts[name]? = some script) {d : Command} (hd : d ∈ script)
    {x : String} (hx : x ∈ d.operands) (hdigit : endsInDigit x = true) :
    (Scripts.declared c.scripts).count x = 1 ∨
      "" ∈ u.names ∧ ∃ n, x = qualify u.context (mintedId defaultStem n) := by
  have hids := Document.load_nodup hload
  obtain ⟨records, hbacks⟩ := compiled_backs hids hnames himports hreached hcompile honce
  rcases hbacks name script hscript d hd x hx hdigit with hin | hexception
  · obtain ⟨minted, hminted, hcount⟩ := compile_minted hids hcompile
    have hle := (hcount x).trans (List.nodup_iff_count_le_one.mp hminted.nodup x)
    exact .inl (Nat.le_antisymm hle (List.count_pos_iff.mpr hin))
  · exact .inr hexception

/-! A class whose slots are used by other scripts, and a class without a name. -/

/-- `import * as lib from "./lib"; class A { p = 1; constructor(q) { this.p = q } m(k) { return k } }
let b = 2; b = A.m(b); new A(b)` -/
def sharedSlotsDocument : Json.Value :=
  .object [("statements", .array [
    .object [("kind", .string "ImportDeclaration"), ("module", .string "./lib"),
      ("namespace", .string "lib")],
    namedNode "ClassDeclaration" "A" [("members", .array [
      namedNode "PropertyDeclaration" "p"
        [("initializer", .object [("kind", .string "NumericLiteral"), ("value", .string "1")])],
      .object [("kind", .string "Constructor"), ("parameters", .array [.object [("name", .string "q")]]),
        ("body", .array [.object [("kind", .string "ExpressionStatement"), ("expression", .object [
          ("kind", .string "BinaryExpression"),
          ("left", namedNode "PropertyAccessExpression" "p"
            [("expression", .object [("kind", .string "ThisKeyword")])]),
          ("operator", .string "="), ("right", namedNode "Identifier" "q" [])])]])],
      namedNode "MethodDeclaration" "m" [("parameters", .array [.object [("name", .string "k")]]),
        ("body", .array [.object [("kind", .string "ReturnStatement"),
          ("expression", namedNode "Identifier" "k" [])]])]])],
    .object [("kind", .string "VariableStatement"), ("declarations", .array [
      namedNode "VariableDeclaration" "b"
        [("initializer", .object [("kind", .string "NumericLiteral"), ("value", .string "2")])]])],
    .object [("kind", .string "ExpressionStatement"), ("expression", .object [
      ("kind", .string "BinaryExpression"), ("left", namedNode "Identifier" "b" []),
      ("operator", .string "="), ("right", .object [("kind", .string "CallExpression"),
        ("expression", namedNode "PropertyAccessExpression" "m"
          [("expression", namedNode "Identifier" "A" [])]),
        ("arguments", .array [namedNode "Identifier" "b" []])])])],
    .object [("kind", .string "ExpressionStatement"), ("expression", .object [
      ("kind", .string "NewExpression"), ("expression", namedNode "Identifier" "A" []),
      ("arguments", .array [namedNode "Identifier" "b" []])])]])]

/-- The unit of that document. -/
def sharedSlotsUnit : CompilationUnit where
  fileName := "main.ts"
  context := "main"
  statements := [
    .imports 0 ⟨"./lib", none, some "lib", []⟩,
    .classDef ⟨2, some "A", none, false, false, [
      .property ⟨"p", some (.number ⟨0, none⟩ (.ofInt 1)), false, 0⟩,
      .constructor ⟨0, some "constructor", [⟨.identifier "q", false, none, 0⟩], some [
        .expression 0 (.binary ⟨0, none⟩ (.member ⟨0, none⟩ (.this ⟨0, none⟩) "p") .assign
          (.identifier ⟨0, none⟩ "q"))], false, 0⟩,
      .method ⟨1, some "m", [⟨.identifier "k", false, none, 0⟩],
        some [.returning 0 (some (.identifier ⟨0, none⟩ "k"))], false, 0⟩ false], 0⟩,
    .bindings 0 [⟨.identifier "b", some (.number ⟨0, none⟩ (.ofInt 2)), 0⟩],
    .expression 0 (.binary ⟨0, none⟩ (.identifier ⟨0, none⟩ "b") .assign
      (.call ⟨0, none⟩ (.member ⟨0, none⟩ (.identifier ⟨0, none⟩ "A") "m") [.identifier ⟨0, none⟩ "b"])),
    .expression 0 (.construct ⟨0, none⟩ (.identifier ⟨0, none⟩ "A") [.identifier ⟨0, none⟩ "b"])]
  declCount := 3

theorem slots_declared_shared :
    ∃ c script, Document.load sharedSlotsDocument "main.ts" = .ok sharedSlotsUnit ∧
      (∀ n ∈ sharedSlotsUnit.names, endsInDigit n = false) ∧ skipped sharedSlotsUnit.statements = [] ∧
      (compile {} sharedSlotsUnit).1 = .ok c ∧ c.scripts["main"]? = some script ∧
      "A_m_return_4" ∉ declaredBy script ∧
      (∃ d ∈ script, "A_m_return_4" ∈ d.operands) ∧
      (Scripts.declared c.scripts).count "A_m_return_4" = 1 := by
  have hload : Document.load sharedSlotsDocument "main.ts" = .ok sharedSlotsUnit := rfl
  have hnames : ∀ n ∈ sharedSlotsUnit.names, endsInDigit n = false := by decide +kernel
  have himports : ∀ line i, .imports line i ∈ sharedSlotsUnit.statements →
      endsInDigit (moduleContext i.module) = false := by
    intro line i hi
    simp only [sharedSlotsUnit, List.mem_cons, List.not_mem_nil, or_false, reduceCtorEq,
      Stmt.imports.injEq] at hi
    obtain ⟨-, rfl⟩ := hi
    decide +kernel
  have hreached : skipped sharedSlotsUnit.statements = [] := by decide +kernel
  obtain ⟨c, hc⟩ : ∃ c, (compile {} sharedSlotsUnit).1 = .ok c := exists_compilation (by decide +kernel)
  have hwarnings : (compile {} sharedSlotsUnit).1.toOption.map (·.warnings) = some [] := by decide +kernel
  have hscript : (compile {} sharedSlotsUnit).1.toOption.bind (·.scripts["main"]?) =
      some [.declare "b_5", .summon "main", .set (some "main") "b_5" "2",
        .operation (some "main") "k_3" .assign "b_5", .invoke "main/A_m",
        .operation (some "main") "b_5" .assign "A_m_return_4",
        .operation (some "main") "q_2" .assign "b_5", .invoke "main/A_INIT", .kill "main"] := by
    decide +kernel
  rw [hc] at hwarnings hscript
  have honce : ∀ w ∈ c.warnings, ∀ name, w.message ≠ producedTwice name := by
    have hnone : c.warnings = [] := Option.some.inj hwarnings
    rw [hnone]
    exact fun w hw => absurd hw List.not_mem_nil
  refine ⟨c, _, hload, hnames, hreached, hc, hscript, by decide, ?_, ?_⟩
  · exact ⟨.operation (some "main") "b_5" .assign "A_m_return_4", by decide, by decide⟩
  · have hslot := slots_declared hload hnames himports hreached hc honce hscript
      (d := .operation (some "main") "b_5" .assign "A_m_return_4") (by decide)
      (x := "A_m_return_4") (by decide) (by decide)
    exact hslot.resolve_right fun hempty => absurd hempty.1 (by decide +kernel)

/-- `class { m() { let x = this. } }` -/
def unnamedClassDocument : Json.Value :=
  .object [("statements", .array [.object [("kind", .string "ClassDeclaration"), ("members", .array [
    namedNode "MethodDeclaration" "m" [("body", .array [
      .object [("kind", .string "VariableStatement"), ("declarations", .array [
        namedNode "VariableDeclaration" "x" [("initializer",
          namedNode "PropertyAccessExpression" ""
            [("expression", .object [("kind", .string "ThisKeyword")])])]])]])]])]])]

/-- The unit of that document. -/
def unnamedClassUnit : CompilationUnit where
  fileName := "main.ts"
  context := "main"
  statements := [
    .classDef ⟨1, none, none, false, false, [
      .method ⟨0, some "m", [], some [.bindings 0 [⟨.identifier "x",
        some (.member ⟨0, none⟩ (.this ⟨0, none⟩) ""), 0⟩]], false, 0⟩ false], 0⟩]
  declCount := 2

/-- **A register that ends in a digit may be undeclared.**  The class takes the name `TS_1`, and a
member of it with an empty name is the class itself. -/
theorem slot_undeclared :
    ∃ c script, Document.load unnamedClassDocument "main.ts" = .ok unnamedClassUnit ∧
      (∀ n ∈ unnamedClassUnit.names, endsInDigit n = false) ∧
      endsInDigit unnamedClassUnit.context = false ∧ skipped unnamedClassUnit.statements = [] ∧
      (compile {} unnamedClassUnit).1 = .ok c ∧ c.warnings = [] ∧
      c.scripts["TS_1_m"]? = some script ∧ (∃ d ∈ script, "main/TS_1" ∈ d.operands) ∧
      endsInDigit "main/TS_1" = true ∧ (Scripts.declared c.scripts).count "main/TS_1" = 0 := by
  obtain ⟨c, hc⟩ : ∃ c, (compile {} unnamedClassUnit).1 = .ok c := exists_compilation (by decide +kernel)
  have hwarnings : (compile {} unnamedClassUnit).1.toOption.map (·.warnings) = some [] := by
    decide +kernel
  have hscript : (compile {} unnamedClassUnit).1.toOption.bind (·.scripts["TS_1_m"]?) =
      some [.declare "x_2", .operation (some "main") "x_2" .assign "main/TS_1"] := by decide +kernel
  have hdeclared : (compile {} unnamedClassUnit).1.toOption.map (fun c => Scripts.declared c.scripts) =
      some ["x_2"] := by decide +kernel
  rw [hc] at hwarnings hscript hdeclared
  refine ⟨c, _, rfl, by decide +kernel, by decide, by decide +kernel, hc, Option.some.inj hwarnings,
    hscript, ?_, by decide, ?_⟩
  · exact ⟨.operation (some "main") "x_2" .assign "main/TS_1", by decide, by decide⟩
  · have hnames : Scripts.declared c.scripts = ["x_2"] := Option.some.inj hdeclared
    rw [hnames]
    decide

end Session

end FrameScript
