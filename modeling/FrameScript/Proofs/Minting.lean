/-
  Minted names never meet.

  An id is `stem_N` and a register is `registerN`, with `N` from a counter of its own.  The stem is
  an arbitrary text, so it may itself end in `_7` or be spelled `register`; what keeps the names
  apart is that digits hold no underscore:

  * the text after the LAST underscore of `stem_N` is `N`, so two ids with different numbers differ
    whatever their stems are (`mintedId_inj`);
  * `registerN` has no underscore at all, so it is no id (`mintedId_ne_mintedRegister`).

  `Allocator.Mints a names b` says that the allocator went from `a` to `b` and handed out `names` on
  the way, in this order; what happened to the preamble is left open.  Along such a run the counters
  only grow, every name handed out has a number between the two states (`Mints.between`), and so no
  name is handed out twice (`Mints.nodup`).
-/
import FrameScript.Allocator
import Mathlib.Data.List.Nodup

namespace FrameScript

/-! ## Reading the number back from a minted name -/

/-- Two lists cut at the first occurrence of a separator are equal part by part. -/
theorem append_separator_inj {α : Type} {c : α} : ∀ {x y u v : List α}, c ∉ x → c ∉ y →
    x ++ c :: u = y ++ c :: v → x = y ∧ u = v
  | [], [], _, _, _, _, h => ⟨rfl, (List.cons.inj h).2⟩
  | [], b :: y, _, _, _, hy, h => by
    have hb : c = b := (List.cons.inj h).1
    exact absurd (hb ▸ List.mem_cons_self) hy
  | a :: x, [], _, _, hx, _, h => by
    have ha : a = c := (List.cons.inj h).1
    exact absurd (ha ▸ List.mem_cons_self) hx
  | a :: x, b :: y, u, v, hx, hy, h => by
    obtain ⟨hab, hrest⟩ := List.cons.inj h
    have hx' : c ∉ x := fun hc => hx (List.mem_cons_of_mem a hc)
    have hy' : c ∉ y := fun hc => hy (List.mem_cons_of_mem b hc)
    obtain ⟨hxy, huv⟩ := append_separator_inj hx' hy' hrest
    exact ⟨by rw [hab, hxy], huv⟩

theorem toString_inj {m n : Nat} (h : (toString m).toList = (toString n).toList) : m = n := by
  have hd : Nat.toDigits 10 m = Nat.toDigits 10 n := by
    simpa only [Nat.toString_eq_repr, Nat.toList_repr] using h
  have hn := congrArg (fun ds => Nat.ofDigitChars 10 ds 0) hd
  simpa using hn

theorem underscore_notMem_toString (n : Nat) : '_' ∉ (toString n).toList := by
  rw [Nat.toString_eq_repr, Nat.toList_repr]
  exact Nat.underscore_not_in_toDigits

theorem toList_mintedId (stem : String) (n : Nat) :
    (mintedId stem n).toList = stem.toList ++ '_' :: (toString n).toList := by
  simp [mintedId]

theorem toList_mintedRegister (n : Nat) :
    (mintedRegister n).toList = "register".toList ++ (toString n).toList := by
  rw [mintedRegister, String.toList_append]

/-- An id determines its stem and its number, whatever underscores the stem has. -/
theorem mintedId_inj {stem stem' : String} {n n' : Nat} (h : mintedId stem n = mintedId stem' n') :
    stem = stem' ∧ n = n' := by
  have hl := congrArg String.toList h
  rw [toList_mintedId, toList_mintedId] at hl
  -- read from the right: the digits end at the first underscore met there
  have hr := congrArg List.reverse hl
  simp only [List.reverse_append, List.reverse_cons, List.append_assoc, List.singleton_append] at hr
  have hno : ∀ k : Nat, '_' ∉ (toString k).toList.reverse := fun k hk =>
    underscore_notMem_toString k (List.mem_reverse.mp hk)
  obtain ⟨hd, hs⟩ := append_separator_inj (hno n) (hno n') hr
  exact ⟨String.toList_injective (List.reverse_injective hs),
    toString_inj (List.reverse_injective hd)⟩

theorem mintedRegister_inj {n n' : Nat} (h : mintedRegister n = mintedRegister n') : n = n' := by
  have hl := congrArg String.toList h
  rw [toList_mintedRegister, toList_mintedRegister] at hl
  exact toString_inj (List.append_cancel_left hl)

/-- No id is spelled like a register, not even with the stem `register`. -/
theorem mintedId_ne_mintedRegister (stem : String) (n m : Nat) :
    mintedId stem n ≠ mintedRegister m := by
  intro h
  have hin : '_' ∈ (mintedRegister m).toList := by
    rw [← h, toList_mintedId]
    simp
  rw [toList_mintedRegister, List.mem_append] at hin
  rcases hin with hword | hdigits
  · exact absurd hword (by decide)
  · exact underscore_notMem_toString m hdigits

/-! ## Runs of the allocator -/

namespace Allocator

/-- The allocator goes from one state to another and hands out some names, in order.  The preamble
may be changed at any time: declaring, swapping and taking it hand out nothing. -/
inductive Mints : Allocator → List String → Allocator → Prop where
  | nothing (a : Allocator) : Mints a [] a
  | id {a b : Allocator} {names : List String} (stem : String) :
      Mints (a.freshId stem).2 names b → Mints a ((a.freshId stem).1 :: names) b
  | register {a b : Allocator} {names : List String} :
      Mints a.freshRegister.2 names b → Mints a (a.freshRegister.1 :: names) b
  | preamble {a b : Allocator} {names : List String} (declared : List String) :
      Mints { a with preamble := declared } names b → Mints a names b

/-- A name whose number was counted after `a` and not after `b`. -/
inductive Between (a b : Allocator) : String → Prop where
  | id (stem : String) {n : Nat} (lo : a.ids < n) (hi : n ≤ b.ids) : Between a b (mintedId stem n)
  | register {n : Nat} (lo : a.registers < n) (hi : n ≤ b.registers) :
      Between a b (mintedRegister n)

namespace Mints

variable {a b c : Allocator} {names more : List String}

theorem trans (hab : Mints a names b) (hbc : Mints b more c) : Mints a (names ++ more) c := by
  induction hab with
  | nothing => exact hbc
  | id stem _ ih => exact .id stem (ih hbc)
  | register _ ih => exact .register (ih hbc)
  | preamble declared _ ih => exact .preamble declared (ih hbc)

/-- The counters never go back. -/
theorem counters_le (h : Mints a names b) : a.ids ≤ b.ids ∧ a.registers ≤ b.registers := by
  induction h with
  | nothing => exact ⟨Nat.le_refl _, Nat.le_refl _⟩
  | id stem _ ih => exact ⟨Nat.le_of_succ_le ih.1, ih.2⟩
  | register _ ih => exact ⟨ih.1, Nat.le_of_succ_le ih.2⟩
  | preamble declared _ ih => exact ih

/-- Every name that was handed out got its number on the way. -/
theorem between (h : Mints a names b) : ∀ x ∈ names, Between a b x := by
  induction h with
  | nothing => exact fun x hx => absurd hx List.not_mem_nil
  | @id a b names stem hrest ih =>
    intro x hx
    have hle : a.ids + 1 ≤ b.ids := hrest.counters_le.1
    rcases List.mem_cons.mp hx with rfl | hx
    · exact .id stem (Nat.lt_succ_self _) hle
    · cases ih x hx with
      | id stem lo hi => exact .id stem (Nat.lt_of_succ_lt lo) hi
      | register lo hi => exact .register lo hi
  | @register a b names hrest ih =>
    intro x hx
    have hle : a.registers + 1 ≤ b.registers := hrest.counters_le.2
    rcases List.mem_cons.mp hx with rfl | hx
    · exact .register (Nat.lt_succ_self _) hle
    · cases ih x hx with
      | id stem lo hi => exact .id stem lo hi
      | register lo hi => exact .register (Nat.lt_of_succ_lt lo) hi
  | preamble declared _ ih =>
    intro x hx
    cases ih x hx with
    | id stem lo hi => exact .id stem lo hi
    | register lo hi => exact .register lo hi

/-- **No name is handed out twice.**  The number of the first name is below all numbers still to
come, and a name determines its number. -/
theorem nodup (h : Mints a names b) : names.Nodup := by
  induction h with
  | nothing => exact List.nodup_nil
  | @id a b names stem hrest ih =>
    refine List.nodup_cons.mpr ⟨fun hin => ?_, ih⟩
    generalize hx : (a.freshId stem).1 = x at hin
    cases hrest.between x hin with
    | id stem' lo hi =>
      have hn := (mintedId_inj hx).2
      have hlo : a.ids + 1 < _ := lo
      omega
    | register lo hi => exact mintedId_ne_mintedRegister _ _ _ hx
  | @register a b names hrest ih =>
    refine List.nodup_cons.mpr ⟨fun hin => ?_, ih⟩
    generalize hx : a.freshRegister.1 = x at hin
    cases hrest.between x hin with
    | id stem' lo hi => exact mintedId_ne_mintedRegister _ _ _ hx.symm
    | register lo hi =>
      have hn := mintedRegister_inj hx
      have hlo : a.registers + 1 < _ := lo
      omega
  | preamble declared _ ih => exact ih

end Mints

end Allocator

end FrameScript
