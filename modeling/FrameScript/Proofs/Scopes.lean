/-
  What a name means, told from the history of its table.

  A symbol table opens and closes scopes, registers symbols in the innermost one and is cleared, in any
  order.  The file says what this comes to without a table: a registration STANDS if nothing was cleared
  since and never were fewer scopes open than when it was made, for then its scope is still open.  Scopes
  that are open at the same time differ in how many of them stand around each, so this number tells them
  apart, and the greatest is innermost.

  1. `SymbolTable.meaning` reads a table scope by scope, whether or not a meaning is shadowed, and each
     operation has an equation for it.  `lookup` and `size` are read off from it.
  2. One more edit leaves the standing registrations as they were, but for those whose scope it closes
     (`stands_snoc`).  So the meaning in a scope is the last registration that stands there
     (`meaning_latest`, `meaning_isSome`), by induction on the history.
  3. Edits that close the scopes they open do not reach the scopes around (`Balanced.edits_eq`).
-/
import FrameScript.Symbol
import Mathlib.Data.List.Induction
import Mathlib.Data.Set.Card

namespace FrameScript

/-- One thing that is done to a symbol table. -/
inductive Edit where
  | enter
  | exit
  | register (symbol : Symbol)
  | clear
deriving DecidableEq

namespace SymbolTable

def edit (t : SymbolTable) : Edit → SymbolTable
  | .enter => t.enter
  | .exit => t.exit
  | .register symbol => t.register symbol
  | .clear => t.clear

def edits (t : SymbolTable) (history : List Edit) : SymbolTable := history.foldl edit t

/-- A new table after some edits. -/
def replay (history : List Edit) : SymbolTable := edits {} history

theorem edits_append (t : SymbolTable) (xs ys : List Edit) :
    t.edits (xs ++ ys) = (t.edits xs).edits ys := List.foldl_append

theorem replay_snoc (history : List Edit) (e : Edit) :
    replay (history ++ [e]) = (replay history).edit e := edits_append {} history [e]

/-! ## A table scope by scope -/

/-- All scopes from the unit's to the innermost. -/
def scopes (t : SymbolTable) : List Scope := t.unitScope :: t.inner.reverse

/-- What a name means in the scope that stands inside `d` others. -/
def meaning (t : SymbolTable) (d : Nat) (name : String) : Option Symbol :=
  t.scopes[d]?.bind (·[name]?)

variable (t : SymbolTable)

theorem length_scopes : t.scopes.length = t.depth + 1 := by
  rw [scopes, List.length_cons, List.length_reverse, depth]

/-- The innermost scope, and those around it. -/
theorem scopes_innermost : ∃ front scope, t.scopes = front ++ [scope] ∧
    (∀ symbol, (t.register symbol).scopes = front ++ [scope.insert symbol.name symbol]) ∧
    t.exit.scopes = if t.depth = 0 then t.scopes else front := by
  obtain ⟨unitScope, inner⟩ := t
  cases inner with
  | nil => exact ⟨[], unitScope, rfl, fun _ => rfl, rfl⟩
  | cons scope rest =>
    refine ⟨unitScope :: rest.reverse, scope, ?_, fun symbol => ?_, rfl⟩
    · rw [scopes, List.reverse_cons, List.cons_append]
    · rw [register, scopes, List.reverse_cons, List.cons_append]

theorem meaning_of_depth_lt {d : Nat} (h : t.depth < d) (name : String) : t.meaning d name = none := by
  have hout : t.scopes.length ≤ d := by rw [length_scopes]; omega
  rw [meaning, List.getElem?_eq_none hout, Option.bind_none]

/-- The meanings in the innermost scope, and in those around it. -/
theorem meaning_of_scopes {t : SymbolTable} {front : List Scope} {scope : Scope}
    (h : t.scopes = front ++ [scope]) (d : Nat) (name : String) :
    t.meaning d name = if d = front.length then scope[name]? else front[d]?.bind (·[name]?) := by
  rw [meaning, h]
  rcases Nat.lt_trichotomy d front.length with hd | rfl | hd
  · rw [List.getElem?_append_left hd, if_neg (by omega)]
  · rw [List.getElem?_concat_length, if_pos rfl, Option.bind_some]
  · have hout : (front ++ [scope]).length ≤ d := by
      rw [List.length_append, List.length_singleton]
      omega
    rw [List.getElem?_eq_none hout, List.getElem?_eq_none (by omega), if_neg (by omega)]

theorem meaning_enter (d : Nat) (name : String) : t.enter.meaning d name = t.meaning d name := by
  have hscopes : t.enter.scopes = t.scopes ++ [∅] := by
    rw [scopes, enter, List.reverse_cons, scopes, List.cons_append]
  have hlength := t.length_scopes
  rw [meaning_of_scopes hscopes]
  split
  · -- the new scope is empty
    rw [t.meaning_of_depth_lt (by omega)]
    exact Std.TreeMap.getElem?_emptyc
  · rw [meaning]

theorem meaning_exit (d : Nat) (name : String) :
    t.exit.meaning d name = if d ≤ t.depth - 1 then t.meaning d name else none := by
  obtain ⟨front, scope, hscopes, -, hexit⟩ := t.scopes_innermost
  have hlength := t.length_scopes
  by_cases hdepth : t.depth = 0
  · rw [if_pos hdepth] at hexit
    rw [meaning, hexit, ← meaning]
    split
    · rfl
    · exact t.meaning_of_depth_lt (by omega) name
  · rw [if_neg hdepth] at hexit
    rw [hscopes, List.length_append, List.length_singleton] at hlength
    rw [meaning, hexit]
    split
    · rw [meaning_of_scopes hscopes, if_neg (by omega)]
    · rw [List.getElem?_eq_none (by omega), Option.bind_none]

theorem meaning_register (symbol : Symbol) (d : Nat) (name : String) :
    (t.register symbol).meaning d name =
      if d = t.depth ∧ name = symbol.name then some symbol else t.meaning d name := by
  obtain ⟨front, scope, hscopes, hregister, -⟩ := t.scopes_innermost
  have hlength := t.length_scopes
  rw [hscopes, List.length_append, List.length_singleton] at hlength
  have hdepth : front.length = t.depth := by omega
  rw [meaning_of_scopes (hregister symbol), meaning_of_scopes hscopes, hdepth, Std.TreeMap.getElem?_insert]
  by_cases hd : d = t.depth
  · by_cases hname : name = symbol.name
    · simp [hd, hname]
    · simp [hd, hname, Ne.symm hname]
  · rw [if_neg hd, if_neg hd, if_neg fun h => hd h.1]

theorem meaning_clear (d : Nat) (name : String) : t.clear.meaning d name = none := by
  cases d with
  | zero => exact Std.TreeMap.getElem?_emptyc
  | succ d => rfl

/-- **A name means what it means in the innermost scope that knows it.** -/
theorem lookup_eq_some_iff {name : String} {symbol : Symbol} : t.lookup name = some symbol ↔
    ∃ d, t.meaning d name = some symbol ∧ ∀ d', d < d' → t.meaning d' name = none := by
  have hlookup : t.lookup name = t.scopes.reverse.findSome? (·[name]?) := by
    rw [lookup, scopes, List.reverse_cons, List.reverse_reverse]
  rw [hlookup, List.findSome?_eq_some_iff]
  constructor
  · rintro ⟨inside, scope, around, hscopes, hsymbol, hinside⟩
    have hsplit : t.scopes = around.reverse ++ scope :: inside.reverse := by
      have hreversed := congrArg List.reverse hscopes
      rw [List.reverse_reverse, List.reverse_append, List.reverse_cons, List.append_assoc] at hreversed
      exact hreversed
    refine ⟨around.length, ?_, fun d' hd => ?_⟩
    · rw [meaning, hsplit, List.getElem?_append_right (by rw [List.length_reverse]),
        List.length_reverse, Nat.sub_self]
      exact hsymbol
    · obtain ⟨k, rfl⟩ : ∃ k, d' = around.reverse.length + (k + 1) :=
        ⟨d' - around.length - 1, by rw [List.length_reverse]; omega⟩
      rw [meaning, hsplit, List.getElem?_append_right (Nat.le_add_right _ _), Nat.add_sub_cancel_left,
        List.getElem?_cons_succ]
      cases hfound : inside.reverse[k]? with
      | none => rfl
      | some found => exact hinside found (List.mem_reverse.mp (List.mem_of_getElem? hfound))
  · rintro ⟨d, hsymbol, hinside⟩
    obtain ⟨scope, hscope, hname⟩ := Option.bind_eq_some_iff.mp hsymbol
    obtain ⟨hd, rfl⟩ := List.getElem?_eq_some_iff.mp hscope
    refine ⟨(t.scopes.drop (d + 1)).reverse, t.scopes[d], (t.scopes.take d).reverse, ?_, hname, ?_⟩
    · have hsplit : t.scopes = t.scopes.take d ++ t.scopes[d] :: t.scopes.drop (d + 1) := by
        rw [← List.drop_eq_getElem_cons hd, List.take_append_drop]
      have hreversed := congrArg List.reverse hsplit
      rw [List.reverse_append, List.reverse_cons, List.append_assoc] at hreversed
      exact hreversed
    · intro found hfound
      obtain ⟨k, hk⟩ := List.mem_iff_getElem?.mp (List.mem_reverse.mp hfound)
      rw [List.getElem?_drop] at hk
      have hnone := hinside (d + 1 + k) (by omega)
      rwa [meaning, hk] at hnone

theorem lookup_eq_none_iff {name : String} : t.lookup name = none ↔ ∀ d, t.meaning d name = none := by
  have hlookup : t.lookup name = none ↔ ∀ scope ∈ t.scopes, scope[name]? = none := by
    rw [lookup, List.findSome?_eq_none_iff, scopes]
    simp [or_comm]
  rw [hlookup]
  constructor
  · intro hnone d
    cases hscope : t.scopes[d]? with
    | none => rw [meaning, hscope, Option.bind_none]
    | some scope =>
      rw [meaning, hscope, Option.bind_some]
      exact hnone scope (List.mem_of_getElem? hscope)
  · intro hnone scope hscope
    obtain ⟨d, hd⟩ := List.mem_iff_getElem?.mp hscope
    have hmeaning := hnone d
    rwa [meaning, hd] at hmeaning

/-- Where names have meanings, shadowed ones included. -/
def held : Set (Nat × String) := { p | (t.meaning p.1 p.2).isSome }

/-- The names of one scope. -/
theorem ncard_names (scope : Scope) :
    { name : String | (scope[name]?).isSome }.Finite ∧
      { name : String | (scope[name]?).isSome }.ncard = scope.size := by
  have hkeys : { name : String | (scope[name]?).isSome } = (scope.keys.toFinset : Set String) := by
    ext name
    rw [List.coe_toFinset, Set.mem_ofPred_eq, Set.mem_ofPred_eq, Std.TreeMap.mem_keys,
      Std.TreeMap.mem_iff_isSome_getElem?]
  rw [hkeys, Set.ncard_coe_finset, List.toFinset_card_of_nodup Std.TreeMap.nodup_keys,
    Std.TreeMap.length_keys]
  exact ⟨Finset.finite_toSet _, rfl⟩

/-- The scope that was opened last, and those around it. -/
theorem meaning_cons (unitScope scope : Scope) (rest : List Scope) (d : Nat) (name : String) :
    meaning ⟨unitScope, scope :: rest⟩ d name =
      if d = rest.length + 1 then scope[name]? else meaning ⟨unitScope, rest⟩ d name := by
  have hscopes : scopes ⟨unitScope, scope :: rest⟩ = scopes ⟨unitScope, rest⟩ ++ [scope] := by
    rw [scopes, List.reverse_cons, scopes, List.cons_append]
  have hlength : (scopes ⟨unitScope, rest⟩).length = rest.length + 1 := length_scopes _
  rw [meaning_of_scopes hscopes, hlength, meaning]

theorem size_cons (unitScope scope : Scope) (rest : List Scope) :
    size ⟨unitScope, scope :: rest⟩ = size ⟨unitScope, rest⟩ + scope.size := by
  have hshift : ∀ (m k : Nat) (scopes : List Scope),
      scopes.foldl (fun n scope => n + scope.size) (m + k) =
        scopes.foldl (fun n scope => n + scope.size) m + k := by
    intro m k scopes
    induction scopes generalizing m with
    | nil => rfl
    | cons scope rest ih => rw [List.foldl_cons, List.foldl_cons, Nat.add_right_comm, ih]
  exact hshift _ _ _

/-- **The size of a table counts its meanings**, each with the place of its scope. -/
theorem ncard_held : t.held.Finite ∧ t.held.ncard = t.size := by
  obtain ⟨unitScope, inner⟩ := t
  -- by induction on the scopes inside the unit's
  induction inner with
  | nil =>
    have hheld : held ⟨unitScope, []⟩ = Prod.mk 0 '' { name : String | (unitScope[name]?).isSome } := by
      ext ⟨d, name⟩
      cases d <;> simp [held, meaning, scopes]
    obtain ⟨hfinite, hcard⟩ := ncard_names unitScope
    rw [hheld, Set.ncard_image_of_injective _ (Prod.mk_right_injective 0), hcard]
    exact ⟨hfinite.image _, rfl⟩
  | cons scope rest ih =>
    obtain ⟨hfiniteRest, hcardRest⟩ := ih
    obtain ⟨hfinite, hcard⟩ := ncard_names scope
    have hheld : held ⟨unitScope, scope :: rest⟩ =
        held ⟨unitScope, rest⟩ ∪
          Prod.mk (rest.length + 1) '' { name : String | (scope[name]?).isSome } := by
      ext ⟨d, name⟩
      have houtside : meaning ⟨unitScope, rest⟩ (rest.length + 1) name = none :=
        meaning_of_depth_lt _ (Nat.lt_succ_self _) name
      by_cases hd : d = rest.length + 1
      · subst hd
        simp [held, meaning_cons, houtside]
      · simp [held, meaning_cons, hd, Ne.symm hd]
    have hdisjoint : Disjoint (held ⟨unitScope, rest⟩)
        (Prod.mk (rest.length + 1) '' { name : String | (scope[name]?).isSome }) := by
      rw [Set.disjoint_right]
      rintro _ ⟨name, -, rfl⟩ hmem
      have houtside : meaning ⟨unitScope, rest⟩ (rest.length + 1) name = none :=
        meaning_of_depth_lt _ (Nat.lt_succ_self _) name
      simp [held, houtside] at hmem
    rw [hheld, Set.ncard_union_eq hdisjoint hfiniteRest (hfinite.image _), hcardRest,
      Set.ncard_image_of_injective _ (Prod.mk_right_injective _), hcard, size_cons]
    exact ⟨hfiniteRest.union (hfinite.image _), rfl⟩

/-! ## The history of a table -/

/-- How many scopes are open inside the unit's after one more edit. -/
def openAfter (n : Nat) : Edit → Nat
  | .enter => n + 1
  | .exit => n - 1
  | .register _ => n
  | .clear => 0

/-- How many scopes are open inside the unit's after some edits. -/
def openScopes (history : List Edit) : Nat := history.foldl openAfter 0

theorem openScopes_snoc (history : List Edit) (e : Edit) :
    openScopes (history ++ [e]) = openAfter (openScopes history) e := by
  rw [openScopes, List.foldl_concat, ← openScopes]

theorem depth_replay (history : List Edit) : (replay history).depth = openScopes history := by
  induction history using List.reverseRecOn with
  | nil => rfl
  | append_singleton history e ih =>
    rw [replay_snoc, openScopes_snoc, ← ih]
    cases e with
    | enter => exact depth_enter _
    | exit => exact List.length_tail
    | register symbol => exact depth_register _ symbol
    | clear => rfl

/-- A registration of the history, made after the edits `before`, whose scope is still open. -/
def Stands (history before : List Edit) (symbol : Symbol) : Prop :=
  ∃ after, history = before ++ .register symbol :: after ∧ .clear ∉ after ∧
    ∀ made, made <+: after → openScopes before ≤ openScopes (before ++ .register symbol :: made)

section Standing

variable {history before : List Edit} {symbol : Symbol}

theorem Stands.openScopes_le (h : Stands history before symbol) :
    openScopes before ≤ openScopes history := by
  obtain ⟨after, rfl, -, hopen⟩ := h
  exact hopen after List.prefix_rfl

theorem Stands.length_lt (h : Stands history before symbol) : before.length < history.length := by
  obtain ⟨after, rfl, -, -⟩ := h
  rw [List.length_append, List.length_cons]
  omega

/-- **One more edit** may be a registration itself, and lets those before it stand whose scope it
does not close. -/
theorem stands_snoc {e : Edit} : Stands (history ++ [e]) before symbol ↔
    (e = .register symbol ∧ before = history) ∨
      (Stands history before symbol ∧ e ≠ .clear ∧ openScopes before ≤ openScopes (history ++ [e])) := by
  constructor
  · intro h
    have hle := h.openScopes_le
    obtain ⟨after, hhistory, hclear, hopen⟩ := h
    rcases List.eq_nil_or_concat after with rfl | ⟨made, last, rfl⟩
    · obtain ⟨rfl, hlast⟩ := List.append_inj' hhistory rfl
      exact .inl ⟨List.singleton_inj.mp hlast, rfl⟩
    · rw [List.concat_eq_append] at hhistory hclear hopen
      rw [← List.cons_append, ← List.append_assoc] at hhistory
      obtain ⟨rfl, hlast⟩ := List.append_inj' hhistory rfl
      obtain rfl := List.singleton_inj.mp hlast
      rw [List.mem_append, List.mem_singleton, not_or] at hclear
      refine .inr ⟨⟨made, rfl, hclear.1, fun p hp => ?_⟩, Ne.symm hclear.2, hle⟩
      exact hopen p (hp.trans (List.prefix_append made [e]))
  · rintro (⟨rfl, rfl⟩ | ⟨⟨after, rfl, hclear, hopen⟩, he, hle⟩)
    · refine ⟨[], rfl, List.not_mem_nil, fun p hp => ?_⟩
      rw [List.prefix_nil.mp hp, openScopes_snoc]
      exact Nat.le_refl _
    · refine ⟨after ++ [e], by rw [List.append_assoc, List.cons_append], ?_, fun p hp => ?_⟩
      · rw [List.mem_append, List.mem_singleton, not_or]
        exact ⟨hclear, Ne.symm he⟩
      · rcases List.prefix_concat_iff.mp hp with rfl | hp
        · rwa [List.append_assoc, List.cons_append] at hle
        · exact hopen p hp

/-- A registration of a name that stands in the scope with `d` scopes around it. -/
def StandsIn (history : List Edit) (d : Nat) (name : String) (before : List Edit) (symbol : Symbol) : Prop :=
  Stands history before symbol ∧ openScopes before = d ∧ symbol.name = name

/-- The last of these. -/
def Latest (history : List Edit) (d : Nat) (name : String) (before : List Edit) (symbol : Symbol) : Prop :=
  StandsIn history d name before symbol ∧ ∀ before' symbol', StandsIn history d name before' symbol' →
    before'.length ≤ before.length

variable {d : Nat} {name : String}

/-- What is registered last in a scope stays the last there while the scope stays open and nothing
new of that name is registered in it. -/
theorem Latest.snoc {e : Edit} (h : Latest history d name before symbol) (he : e ≠ .clear)
    (hd : d ≤ openScopes (history ++ [e]))
    (hnew : ∀ latest, e = .register latest → ¬ (d = openScopes history ∧ name = latest.name)) :
    Latest (history ++ [e]) d name before symbol := by
  obtain ⟨⟨hstands, hopen, hname⟩, hlast⟩ := h
  refine ⟨⟨stands_snoc.mpr (.inr ⟨hstands, he, by omega⟩), hopen, hname⟩, ?_⟩
  rintro before' symbol' ⟨hstands', hopen', hname'⟩
  rcases stands_snoc.mp hstands' with ⟨hregister, rfl⟩ | ⟨hold, -, -⟩
  · exact absurd ⟨hopen'.symm, hname'.symm⟩ (hnew symbol' hregister)
  · exact hlast before' symbol' ⟨hold, hopen', hname'⟩

/-- **A name means what was registered last** in a scope, among what stands there. -/
theorem meaning_latest (h : (replay history).meaning d name = some symbol) :
    ∃ before, Latest history d name before symbol := by
  -- by induction on the history, with each edit's own equation for the meanings
  induction history using List.reverseRecOn with
  | nil =>
    have hnone : (replay []).meaning d name = none := meaning_clear {} d name
    rw [hnone] at h
    cases h
  | append_singleton history e ih =>
    rw [replay_snoc] at h
    cases e with
    | enter =>
      rw [edit, meaning_enter] at h
      obtain ⟨before, hlatest⟩ := ih h
      have hd : d ≤ openScopes history := hlatest.1.2.1 ▸ hlatest.1.1.openScopes_le
      refine ⟨before, hlatest.snoc Edit.noConfusion ?_ (fun _ he => Edit.noConfusion he)⟩
      rw [openScopes_snoc, openAfter]
      omega
    | exit =>
      rw [edit, meaning_exit, depth_replay] at h
      split at h
      · rename_i hd
        obtain ⟨before, hlatest⟩ := ih h
        refine ⟨before, hlatest.snoc Edit.noConfusion ?_ (fun _ he => Edit.noConfusion he)⟩
        rwa [openScopes_snoc, openAfter]
      · cases h
    | register latest =>
      rw [edit, meaning_register, depth_replay] at h
      split at h
      · rename_i hnew
        obtain rfl := Option.some.inj h
        refine ⟨history, ⟨stands_snoc.mpr (.inl ⟨rfl, rfl⟩), hnew.1.symm, hnew.2.symm⟩, ?_⟩
        rintro before' symbol' ⟨hstands, -, -⟩
        have hlength := hstands.length_lt
        rw [List.length_append, List.length_singleton] at hlength
        omega
      · rename_i hnew
        obtain ⟨before, hlatest⟩ := ih h
        have hd : d ≤ openScopes history := hlatest.1.2.1 ▸ hlatest.1.1.openScopes_le
        refine ⟨before, hlatest.snoc Edit.noConfusion ?_ ?_⟩
        · rwa [openScopes_snoc, openAfter]
        · rintro latest' hregister
          obtain rfl := Edit.register.inj hregister
          exact hnew
    | clear =>
      rw [edit, meaning_clear] at h
      cases h

/-- Nothing that stands is forgotten. -/
theorem Stands.meaning_isSome (h : Stands history before symbol) :
    ((replay history).meaning (openScopes before) symbol.name).isSome := by
  induction history using List.reverseRecOn with
  | nil => exact absurd h.length_lt (Nat.not_lt_zero _)
  | append_singleton history e ih =>
    rw [replay_snoc]
    rcases stands_snoc.mp h with ⟨rfl, rfl⟩ | ⟨hstands, he, hle⟩
    · rw [edit, meaning_register, depth_replay, if_pos ⟨rfl, rfl⟩]
      rfl
    · cases e with
      | enter =>
        rw [edit, meaning_enter]
        exact ih hstands
      | exit =>
        rw [openScopes_snoc, openAfter] at hle
        rw [edit, meaning_exit, depth_replay, if_pos hle]
        exact ih hstands
      | register latest =>
        rw [edit, meaning_register]
        split
        · rfl
        · exact ih hstands
      | clear => exact absurd rfl he

/-- Two registrations at one place of the history are one. -/
theorem Stands.unique {before' : List Edit} {symbol' : Symbol} (h : Stands history before symbol)
    (h' : Stands history before' symbol') (hplace : before.length = before'.length) : symbol = symbol' := by
  obtain ⟨after, hhistory, -⟩ := h
  obtain ⟨after', hhistory', -⟩ := h'
  have hrest := List.append_inj_right (hhistory.symm.trans hhistory') hplace
  exact Edit.register.inj (List.cons.inj hrest).1

/-- What decides on a name: no other registration of the name stands further inside, or later in the
same scope. -/
def Prevails (history before : List Edit) (symbol : Symbol) : Prop :=
  Stands history before symbol ∧ ∀ before' symbol', Stands history before' symbol' →
    symbol'.name = symbol.name → openScopes before' < openScopes before ∨
      openScopes before' = openScopes before ∧ before'.length ≤ before.length

theorem lookup_replay : (replay history).lookup name = some symbol ↔
    symbol.name = name ∧ ∃ before, Prevails history before symbol := by
  rw [lookup_eq_some_iff]
  constructor
  · rintro ⟨d, hsymbol, hinside⟩
    obtain ⟨before, ⟨hstands, rfl, rfl⟩, hlast⟩ := meaning_latest hsymbol
    refine ⟨rfl, before, hstands, fun before' symbol' hstands' hname => ?_⟩
    rcases Nat.lt_trichotomy (openScopes before') (openScopes before) with hd | hd | hd
    · exact .inl hd
    · exact .inr ⟨hd, hlast before' symbol' ⟨hstands', hd, hname⟩⟩
    · have hsome := hstands'.meaning_isSome
      rw [hname, hinside _ hd] at hsome
      cases hsome
  · rintro ⟨rfl, before, hstands, hprevails⟩
    refine ⟨openScopes before, ?_, fun d hd => ?_⟩
    · obtain ⟨found, hfound⟩ := Option.isSome_iff_exists.mp hstands.meaning_isSome
      obtain ⟨before', ⟨hstands', hopen, hname⟩, hlast⟩ := meaning_latest hfound
      have hlater := hlast before symbol ⟨hstands, rfl, rfl⟩
      have hearlier := hprevails before' found hstands' hname
      obtain rfl := hstands.unique hstands' (by omega)
      exact hfound
    · cases hfound : (replay history).meaning d symbol.name with
      | none => rfl
      | some found =>
        obtain ⟨before', ⟨hstands', rfl, hname⟩, -⟩ := meaning_latest hfound
        have hprevailed := hprevails before' found hstands' hname
        omega

theorem lookup_replay_eq_none : (replay history).lookup name = none ↔
    ∀ before symbol, Stands history before symbol → symbol.name ≠ name := by
  rw [lookup_eq_none_iff]
  constructor
  · rintro hnone before symbol hstands rfl
    have hsome := hstands.meaning_isSome
    rw [hnone] at hsome
    cases hsome
  · intro hnone d
    cases hfound : (replay history).meaning d name with
    | none => rfl
    | some found =>
      obtain ⟨before, ⟨hstands, -, hname⟩, -⟩ := meaning_latest hfound
      exact absurd hname (hnone before found hstands)

/-- What stands: the number of its scope and its name. -/
def standing (history : List Edit) : Set (Nat × String) :=
  { p | ∃ before symbol, Stands history before symbol ∧ p = (openScopes before, symbol.name) }

theorem held_replay : (replay history).held = standing history := by
  ext ⟨d, name⟩
  rw [held, Set.mem_ofPred_eq, standing, Set.mem_ofPred_eq]
  constructor
  · intro hsome
    obtain ⟨found, hfound⟩ := Option.isSome_iff_exists.mp hsome
    obtain ⟨before, ⟨hstands, rfl, rfl⟩, -⟩ := meaning_latest hfound
    exact ⟨before, found, hstands, rfl⟩
  · rintro ⟨before, symbol, hstands, hplace⟩
    obtain ⟨rfl, rfl⟩ := Prod.mk.inj hplace
    exact hstands.meaning_isSome

end Standing

/-! ## Edits that close what they open -/

/-- Each scope that is opened is closed again, and none but these. -/
structure Balanced (body : List Edit) : Prop where
  noClear : .clear ∉ body
  inside : ∀ made, made <+: body → made.count .exit ≤ made.count .enter
  closed : body.count .exit = body.count .enter

/-- Inside a scope of their own, edits that never close more than they opened reach no scope around. -/
theorem edits_inside (t : SymbolTable) {made : List Edit} (hclear : .clear ∉ made)
    (hinside : ∀ p, p <+: made → p.count .exit ≤ p.count .enter) :
    ∃ opened, t.enter.edits made = { t with inner := opened ++ t.inner } ∧
      opened.length + made.count .exit = made.count .enter + 1 := by
  induction made using List.reverseRecOn with
  | nil => exact ⟨[∅], rfl, rfl⟩
  | append_singleton made e ih =>
    rw [List.mem_append, List.mem_singleton, not_or] at hclear
    obtain ⟨opened, htable, hcount⟩ :=
      ih hclear.1 (fun p hp => hinside p (hp.trans (List.prefix_append made [e])))
    have hmade := hinside made (List.prefix_append made [e])
    rw [edits_append, htable, List.count_append, List.count_append]
    -- a scope of their own is open throughout
    obtain ⟨scope, rest, rfl⟩ : ∃ scope rest, opened = scope :: rest := by
      cases opened with
      | nil => rw [List.length_nil] at hcount; omega
      | cons scope rest => exact ⟨scope, rest, rfl⟩
    rw [List.length_cons] at hcount
    cases e with
    | enter =>
      refine ⟨∅ :: scope :: rest, rfl, ?_⟩
      show rest.length + 1 + 1 + (made.count .exit + 0) = made.count .enter + 1 + 1
      omega
    | exit =>
      refine ⟨rest, rfl, ?_⟩
      show rest.length + (made.count .exit + 1) = made.count .enter + 0 + 1
      omega
    | register symbol =>
      refine ⟨scope.insert symbol.name symbol :: rest, rfl, ?_⟩
      show rest.length + 1 + (made.count .exit + 0) = made.count .enter + 0 + 1
      omega
    | clear => exact absurd rfl hclear.2

theorem Balanced.edits_eq {body : List Edit} (h : Balanced body) (t : SymbolTable) :
    t.edits (.enter :: body ++ [.exit]) = t := by
  obtain ⟨opened, htable, hcount⟩ := t.edits_inside h.noClear h.inside
  have hone : opened.length = 1 := by
    have hclosed := h.closed
    omega
  obtain ⟨scope, rfl⟩ := List.length_eq_one_iff.mp hone
  calc t.edits (.enter :: body ++ [.exit])
      = (t.enter.edits body).exit := edits_append t (.enter :: body) [.exit]
    _ = t := by rw [htable]; rfl

/-- **A symbol table is a stack of scopes in which the last registration counts**, whatever was done to
it.  A name means what prevails in the history, and stands for itself if nothing of it stands; the size
counts the names that stand, each with its scope; and edits between an `enter` and its `exit` leave no
trace. -/
theorem reads_of_history (history : List Edit) :
    (∀ name symbol, (replay history).lookup name = some symbol ↔
      symbol.name = name ∧ ∃ before, Prevails history before symbol) ∧
    (∀ name, (replay history).lookup name = none ↔
      ∀ before symbol, Stands history before symbol → symbol.name ≠ name) ∧
    (∀ before symbol, Prevails history before symbol →
      (replay history).resolve symbol.name = symbol.path) ∧
    (∀ name, (∀ before symbol, Stands history before symbol → symbol.name ≠ name) →
      (replay history).resolve name = name) ∧
    (replay history).depth = openScopes history ∧
    (standing history).Finite ∧ (replay history).size = (standing history).ncard ∧
    ∀ body, Balanced body → replay (history ++ .enter :: body ++ [.exit]) = replay history := by
  obtain ⟨hfinite, hsize⟩ := (replay history).ncard_held
  rw [held_replay] at hfinite hsize
  refine ⟨fun _ _ => lookup_replay, fun _ => lookup_replay_eq_none, fun before symbol h => ?_,
    fun name h => ?_, depth_replay history, hfinite, hsize.symm, fun body h => ?_⟩
  · rw [resolve, lookup_replay.mpr ⟨rfl, before, h⟩]
  · rw [resolve, lookup_replay_eq_none.mpr h]
  · rw [List.append_assoc, replay, edits_append, ← replay]
    exact h.edits_eq (replay history)

/-- A history with surplus exits, a `clear` inside a scope, and a name that is registered in two scopes
and twice in one of them. -/
def rehearsal : List Edit :=
  [.exit, .register ⟨"gone", "p_1", .variableName, none⟩, .enter, .clear,
    .register ⟨"x", "p_2", .variableName, none⟩, .exit, .enter,
    .register ⟨"x", "p_3", .field, none⟩, .register ⟨"y", "p_4", .function, none⟩,
    .register ⟨"x", "p_5", .variableName, some 1⟩]

theorem reads_of_rehearsal :
    (∃ before, Prevails rehearsal before ⟨"x", "p_5", .variableName, some 1⟩) ∧
    (replay rehearsal).resolve "x" = "p_5" ∧ (replay rehearsal).resolve "gone" = "gone" ∧
    (standing rehearsal).ncard = 3 ∧
    replay (rehearsal ++ .enter :: [.enter, .exit, .register ⟨"y", "p_6", .field, none⟩] ++ [.exit]) =
      replay rehearsal := by
  obtain ⟨hlookup, hnone, hresolve, hself, -, -, hsize, hbalanced⟩ := reads_of_history rehearsal
  obtain ⟨-, before, hprevails⟩ :=
    (hlookup "x" ⟨"x", "p_5", .variableName, some 1⟩).mp (by decide +kernel)
  have hgone := (hnone "gone").mp (by decide +kernel)
  refine ⟨⟨before, hprevails⟩, hresolve before _ hprevails, hself "gone" hgone, ?_,
    hbalanced _ ⟨by decide, fun made hmade => ?_, by decide⟩⟩
  · rw [← hsize]
    decide +kernel
  · have hprefixes : ∀ made ∈ [Edit.enter, .exit, .register ⟨"y", "p_6", .field, none⟩].inits,
        made.count .exit ≤ made.count .enter := by decide
    exact hprefixes made ((List.mem_inits _ _).mpr hmade)

end SymbolTable

end FrameScript
