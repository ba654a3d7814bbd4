/-
  Paths and the file names at their ends.

  A path is a directory part, empty or with a slash at its end, and a file name behind it.  Paths are
  taken apart from the end, so whatever the directory part holds, taking the path apart gives both
  back (`splitName?_append`), and only the file name decides where its extension begins.

  A unit is compiled under the name of its file without the extension.  An import names the same
  context by the specifier of the module, with the extension or without it (`contexts_agree`).
-/
import FrameScript.Source.Builder

namespace FrameScript

namespace Path

/-- What stands before a file name in a path: nothing, or a text that ends in a slash. -/
def Directory (d : List Char) : Prop := d = [] ∨ d.getLast? = some '/'

/-- A segment that can name a file. -/
structure FileName (name : List Char) : Prop where
  nonempty : name ≠ []
  slashFree : '/' ∉ name
  ne_here : name ≠ ['.']
  ne_up : name ≠ ['.', '.']

/-! ## The last segment -/

/-- The last segment of a directory part is empty. -/
theorem Directory.takeWhile_reverse {d : List Char} (h : Directory d) :
    d.reverse.takeWhile (· ≠ '/') = [] := by
  rcases h with rfl | h
  · rfl
  · obtain ⟨rest, rfl⟩ := List.getLast?_eq_some_iff.mp h
    rw [List.reverse_append]
    rfl

theorem Directory.dropWhile_reverse {d : List Char} (h : Directory d) :
    d.reverse.dropWhile (· ≠ '/') = d.reverse := by
  have hsplit := List.takeWhile_append_dropWhile (p := (· ≠ '/')) (l := d.reverse)
  rwa [h.takeWhile_reverse, List.nil_append] at hsplit

/-- A text that ends in a slash and what stands before it. -/
theorem Directory.snoc (d : List Char) : Directory (d ++ ['/']) := .inr List.getLast?_concat

/-- A character that does not occur is found nowhere. -/
theorem all_ne {c : Char} {l : List Char} (h : c ∉ l) : ∀ x ∈ l, decide (x ≠ c) = true := by
  intro x hx
  refine decide_eq_true fun heq => h ?_
  exact heq ▸ hx

theorem all_ne_reverse {c : Char} {l : List Char} (h : c ∉ l) :
    ∀ x ∈ l.reverse, decide (x ≠ c) = true := all_ne (mt List.mem_reverse.mp h)

section Segment

variable {d name : List Char} (hd : Directory d) (hslash : '/' ∉ name)

include hd hslash

theorem takeWhile_reverse_append : (name.reverse ++ d.reverse).takeWhile (· ≠ '/') = name.reverse := by
  rw [List.takeWhile_append_of_pos (all_ne_reverse hslash), hd.takeWhile_reverse, List.append_nil]

theorem dropWhile_reverse_append : (name.reverse ++ d.reverse).dropWhile (· ≠ '/') = d.reverse := by
  rw [List.dropWhile_append_of_pos (all_ne_reverse hslash), hd.dropWhile_reverse]

end Segment

theorem lastSegment_append {directory segment : String} (hd : Directory directory.toList)
    (hslash : '/' ∉ segment.toList) : lastSegment (directory ++ segment) = segment.toList := by
  rw [lastSegment, String.toList_append, List.reverse_append, takeWhile_reverse_append hd hslash,
    List.reverse_reverse]

/-! ## File names -/

/-- A stem with a point behind it is a file name like the stem. -/
theorem FileName.extended {stem rest : List Char} (h : FileName stem) (hslash : '/' ∉ rest) :
    FileName (stem ++ '.' :: rest) where
  nonempty := by simp
  slashFree := by simpa [h.slashFree] using hslash
  ne_here := by
    intro heq
    have hlength := congrArg List.length heq
    rw [List.length_append, List.length_cons, List.length_singleton] at hlength
    exact h.nonempty (List.eq_nil_of_length_eq_zero (by omega))
  ne_up := by
    intro heq
    cases stem with
    | nil => exact h.nonempty rfl
    | cons c cs =>
      rw [List.cons_append] at heq
      obtain ⟨rfl, htail⟩ := List.cons.inj heq
      have hlength := congrArg List.length htail
      rw [List.length_append, List.length_cons, List.length_singleton] at hlength
      obtain rfl : cs = [] := List.eq_nil_of_length_eq_zero (by omega)
      exact h.ne_here rfl

/-- Nothing is dropped behind a file name. -/
theorem dropTrailing_append {d name : List Char} (h : FileName name) :
    dropTrailing (name.reverse ++ d.reverse) = name.reverse ++ d.reverse := by
  have hslash : ∀ c ∈ name.reverse, c ≠ '/' := fun c hc heq =>
    h.slashFree (heq ▸ List.mem_reverse.mp hc)
  match hrev : name.reverse with
  | [] => exact absurd (List.reverse_eq_nil_iff.mp hrev) h.nonempty
  | [c] =>
    have hc : c ≠ '/' := hslash c (hrev ▸ List.mem_cons_self)
    have hpoint : c ≠ '.' := fun heq => h.ne_here (by rw [← List.reverse_reverse name, hrev, heq]; rfl)
    rw [List.singleton_append, dropTrailing]
    · rintro rest heq
      exact hc (List.cons.inj heq).1
    · rintro rest heq
      exact hpoint (List.cons.inj heq).1
  | c :: c' :: rest =>
    have hc : c ≠ '/' := hslash c (hrev ▸ List.mem_cons_self)
    have hc' : c' ≠ '/' := hslash c' (hrev ▸ List.mem_cons_of_mem c List.mem_cons_self)
    rw [List.cons_append, List.cons_append, dropTrailing]
    · rintro rest heq
      exact hc (List.cons.inj heq).1
    · rintro rest heq
      exact hc' (List.cons.inj (List.cons.inj heq).2).1

/-- **Taking a path apart gives its directory part and its file name back.** -/
theorem splitName?_append {d name : List Char} (hd : Directory d) (h : FileName name) :
    splitName? (d ++ name) = some (d, name) := by
  rw [splitName?, List.reverse_append, dropTrailing_append h, takeWhile_reverse_append hd h.slashFree,
    dropWhile_reverse_append hd h.slashFree, List.reverse_reverse, List.reverse_reverse, if_neg]
  rintro (hempty | hhere | hup)
  · exact h.nonempty hempty
  · exact h.ne_here hhere
  · exact h.ne_up hup

/-! ## Extensions -/

/-- The last point of a name begins its extension. -/
theorem splitPoint_append {stem extension : List Char} (hstem : stem ≠ []) (h : '.' ∉ extension) :
    splitPoint (stem ++ '.' :: extension) = (stem, some extension) := by
  have hreverse : (stem ++ '.' :: extension).reverse = extension.reverse ++ '.' :: stem.reverse := by
    rw [List.reverse_append, List.reverse_cons, List.append_assoc, List.singleton_append]
  have htake : (extension.reverse ++ '.' :: stem.reverse).takeWhile (· ≠ '.') = extension.reverse := by
    rw [List.takeWhile_append_of_pos (all_ne_reverse h), List.takeWhile_cons_of_neg (by decide),
      List.append_nil]
  have hdrop : (extension.reverse ++ '.' :: stem.reverse).dropWhile (· ≠ '.') = '.' :: stem.reverse := by
    rw [List.dropWhile_append_of_pos (all_ne_reverse h), List.dropWhile_cons_of_neg (by decide)]
  rw [splitPoint, hreverse, htake, hdrop, List.reverse_reverse]
  cases hrev : stem.reverse with
  | nil => exact absurd (List.reverse_eq_nil_iff.mp hrev) hstem
  | cons c rest =>
    dsimp only
    rw [← hrev, List.reverse_reverse]

/-- A name has no extension if it has no point, or just one that opens it. -/
theorem splitPoint_of_plain {name : List Char} (h : '.' ∉ name.tail) : splitPoint name = (name, none) := by
  cases name with
  | nil => rfl
  | cons c rest =>
    have hrest : '.' ∉ rest := h
    rw [splitPoint, List.reverse_cons, List.dropWhile_append_of_pos (all_ne_reverse hrest)]
    by_cases hc : c = '.'
    · rw [List.dropWhile_cons_of_neg (by simp [hc])]
    · rw [List.dropWhile_cons_of_pos (by simp [hc]), List.dropWhile_nil]

end Path

/-! ## Contexts -/

namespace Source

open FrameScript.Path (Directory FileName)

/-- A file is compiled under its name without the extension. -/
theorem fileContext_append {directory segment : String} (hd : Directory directory.toList)
    (hsegment : segment ≠ "") (hslash : '/' ∉ segment.toList) :
    fileContext (directory ++ segment ++ ".ts") = segment := by
  have hname : FileName (segment.toList ++ ".ts".toList) := by
    refine ⟨?_, ?_, ?_, ?_⟩ <;> intro h
    · exact absurd (List.append_eq_nil_iff.mp h).2 (by decide)
    · exact (List.mem_append.mp h).elim hslash (by decide)
    · exact absurd (congrArg List.length h) (by simp)
    · exact absurd (congrArg List.length h) (by simp)
  have hstem : segment.toList ≠ [] := fun h => hsegment (String.toList_inj.mp h)
  have hpoint : Path.splitPoint (segment.toList ++ ".ts".toList) = (segment.toList, some ['t', 's']) :=
    Path.splitPoint_append hstem (by decide)
  rw [fileContext, Path.fileStem?, String.append_assoc, String.toList_append, String.toList_append,
    Path.splitName?_append hd hname]
  simp only [Option.map_some, Option.getD_some, hpoint, String.ofList_toList]

/-- An import reads the last segment of its specifier up to the first point. -/
theorem moduleContext_append {directory segment rest : String} (hd : Directory directory.toList)
    (hsegment : segment ≠ "") (hslash : '/' ∉ (segment ++ rest).toList) (hpoint : '.' ∉ segment.toList)
    (hrest : rest.toList.takeWhile (· ≠ '.') = []) :
    moduleContext (directory ++ (segment ++ rest)) = segment := by
  have hopen : (segment ++ rest).toList.head? ≠ some '.' := by
    rw [String.toList_append]
    cases hlist : segment.toList with
    | nil => exact absurd (String.toList_inj.mp hlist) hsegment
    | cons c cs =>
      intro h
      rw [hlist] at hpoint
      cases h
      exact hpoint List.mem_cons_self
  rw [moduleContext, Path.lastSegment_append hd hslash, if_neg hopen, String.toList_append,
    List.takeWhile_append_of_pos (Path.all_ne hpoint), hrest, List.append_nil, String.ofList_toList]

/-- **Imports name the contexts that units are compiled under.**  A module whose file name has no point
but that of its extension is named alike with the extension and without it: by the context of its
file. -/
theorem contexts_agree (directory segment : String) (hd : Directory directory.toList)
    (hsegment : segment ≠ "") (hslash : '/' ∉ segment.toList) (hpoint : '.' ∉ segment.toList)
    (statements : List Stmt) (cursor : Cursor) :
    let unit := (Builder.unit (directory ++ segment ++ ".ts") statements cursor).1
    moduleContext (directory ++ segment) = unit.context ∧
    moduleContext (directory ++ segment ++ ".ts") = unit.context := by
  have hunit : (Builder.unit (directory ++ segment ++ ".ts") statements cursor).1.context = segment :=
    fileContext_append hd hsegment hslash
  have hslash' : '/' ∉ (segment ++ ".ts").toList := by
    rw [String.toList_append]
    exact fun h => (List.mem_append.mp h).elim hslash (by decide)
  dsimp only
  rw [hunit]
  constructor
  · rw [← String.append_empty (s := segment)] at hslash
    have hplain := moduleContext_append hd hsegment hslash hpoint rfl
    rwa [String.append_empty] at hplain
  · rw [String.append_assoc]
    exact moduleContext_append hd hsegment hslash' hpoint (by decide)

/-- `./lib/util` and `./lib/util.ts` -/
theorem contexts_agree_util :
    Directory "./lib/".toList ∧ "util" ≠ "" ∧ '/' ∉ "util".toList ∧ '.' ∉ "util".toList ∧
    (Builder.unit "./lib/util.ts" [] {}).1.context = "util" ∧
    moduleContext "./lib/util" = "util" ∧ moduleContext "./lib/util.ts" = "util" := by
  have hd : Directory "./lib/".toList := .inr (by decide)
  obtain ⟨hbare, hfull⟩ :=
    contexts_agree "./lib/" "util" hd (by decide) (by decide) (by decide) [] {}
  have hunit : (Builder.unit "./lib/util.ts" [] {}).1.context = "util" := by decide
  exact ⟨hd, by decide, by decide, by decide, hunit, hbare.trans hunit, hfull.trans hunit⟩

/-- **A point in the name of a module is ambiguous.**  The segment `util.ts` has no slash and does not
open with a point.  As a specifier it names the context of the file `util.ts`, as `util` does; the
file that it would be with one more extension has the context `util.ts`. -/
theorem contexts_part :
    '/' ∉ "util.ts".toList ∧ "util.ts".toList.head? ≠ some '.' ∧
    moduleContext "util.ts" = "util" ∧ (Builder.unit "util.ts" [] {}).1.context = "util" ∧
    (Builder.unit ("util.ts" ++ ".ts") [] {}).1.context = "util.ts" := by
  decide

end Source

end FrameScript
