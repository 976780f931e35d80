import Mathlib.Data.List.DropRight
import Trellis.Text.Blank

/-!
# Stripped text

White space at the ends of a text is dropped, and what is left starts and ends with something else.

* `stripChars_eq_self_iff`: a text is left as it is exactly if it neither starts nor ends with white
  space.
* `stripChars_surround`: white space around such a text is all that is dropped.
* `exists_surround`: every text is a stripped one with white space around it.
-/

namespace Trellis.Text

variable {cs left right : List Char}

theorem dropTrailing_eq_rdropWhile (p : Char → Bool) (cs : List Char) :
    dropTrailing p cs = cs.rdropWhile p :=
  rfl

/-- Only the ends of a text count. -/
theorem stripChars_eq_self_iff :
    stripChars cs = cs ↔
      (∀ c ∈ cs.head?, isBlank c = false) ∧ ∀ c ∈ cs.getLast?, isBlank c = false := by
  rw [stripChars, trimBoth, dropTrailing_eq_rdropWhile]
  constructor
  · intro h
    have hfront : cs.dropWhile isBlank = cs := by
      have hle := (List.rdropWhile_prefix isBlank (l := cs.dropWhile isBlank)).length_le
      rw [h] at hle
      exact (List.dropWhile_suffix isBlank).eq_of_length_le hle
    rw [hfront, List.rdropWhile_eq_self_iff] at h
    refine ⟨fun c hc => ?_, fun c hc => ?_⟩
    · cases cs with
      | nil => cases hc
      | cons d ds =>
        obtain rfl : d = c := Option.some.inj hc
        by_contra hblank
        rw [List.dropWhile_cons_of_pos (by simpa using hblank)] at hfront
        have hle := (List.dropWhile_suffix (l := ds) isBlank).length_le
        rw [hfront, List.length_cons] at hle
        omega
    · obtain ⟨hne, rfl⟩ := List.mem_getLast?_eq_getLast hc
      simpa using h hne
  · rintro ⟨hhead, hlast⟩
    have hfront : cs.dropWhile isBlank = cs := by
      cases cs with
      | nil => rfl
      | cons d ds => exact List.dropWhile_cons_of_neg (by simp [hhead d rfl])
    rw [hfront, List.rdropWhile_eq_self_iff]
    intro hne
    simp [hlast _ (List.getLast_mem_getLast? hne)]

theorem dropTrailing_append (cs : List Char) {p : Char → Bool} (h : ∀ c ∈ right, p c = true) :
    dropTrailing p (cs ++ right) = dropTrailing p cs := by
  have hreverse : ∀ c ∈ right.reverse, p c = true := fun c hc => h c (List.mem_reverse.mp hc)
  rw [dropTrailing, List.reverse_append, List.dropWhile_append_of_pos hreverse]
  rfl

/-- White space around a stripped text is all that is dropped. -/
theorem stripChars_surround (hleft : ∀ c ∈ left, isBlank c = true)
    (hright : ∀ c ∈ right, isBlank c = true) (h : stripChars cs = cs) :
    stripChars (left ++ cs ++ right) = cs := by
  have hfront : dropTrailing isBlank ((cs ++ right).dropWhile isBlank) = cs := by
    cases cs with
    | nil =>
      rw [List.nil_append, List.dropWhile_eq_nil_iff.mpr hright]
      rfl
    | cons c cs =>
      have hc := (stripChars_eq_self_iff.mp h).1 c rfl
      rw [stripChars, trimBoth] at h
      rw [List.dropWhile_cons_of_neg (by simp [hc])] at h
      rw [List.cons_append, List.dropWhile_cons_of_neg (by simp [hc]), ← List.cons_append,
        dropTrailing_append _ hright, h]
  rw [stripChars, trimBoth, List.append_assoc, List.dropWhile_append_of_pos hleft, hfront]

theorem stripChars_stripChars (cs : List Char) : stripChars (stripChars cs) = stripChars cs := by
  refine stripChars_eq_self_iff.mpr ⟨fun c hc => ?_, fun c hc => ?_⟩
  · obtain ⟨rest, hrest⟩ := List.head?_eq_some_iff.mp hc
    obtain ⟨after, hafter⟩ := List.rdropWhile_prefix isBlank (l := cs.dropWhile isBlank)
    change stripChars cs ++ after = _ at hafter
    rw [hrest, List.cons_append] at hafter
    have hne : cs.dropWhile isBlank ≠ [] := hafter ▸ List.cons_ne_nil _ _
    have hhead := List.head_dropWhile_not isBlank hne
    simpa only [← hafter, List.head_cons] using hhead
  · obtain ⟨hne, rfl⟩ := List.mem_getLast?_eq_getLast hc
    have hlast := List.rdropWhile_last_not isBlank (cs.dropWhile isBlank) hne
    exact Bool.eq_false_iff.mpr hlast

/-- Every text is a stripped one with white space around it. -/
theorem exists_surround (cs : List Char) :
    ∃ left right, cs = left ++ stripChars cs ++ right ∧ (∀ c ∈ left, isBlank c = true) ∧
      ∀ c ∈ right, isBlank c = true := by
  refine ⟨cs.takeWhile isBlank, (cs.dropWhile isBlank).rtakeWhile isBlank, ?_,
    fun c => List.mem_takeWhile_imp, fun c => List.mem_rtakeWhile_imp⟩
  rw [stripChars, trimBoth, dropTrailing_eq_rdropWhile, List.append_assoc,
    List.rdropWhile_append_rtakeWhile, List.takeWhile_append_dropWhile]

/-- White space at the end is dropped. -/
theorem stripChars_append (cs : List Char) (hright : ∀ c ∈ right, isBlank c = true) :
    stripChars (cs ++ right) = stripChars cs := by
  obtain ⟨front, back, hcs, hfront, hback⟩ := exists_surround cs
  have hwhole := stripChars_surround hfront (List.forall_mem_append.mpr ⟨hback, hright⟩)
    (stripChars_stripChars cs)
  rwa [← List.append_assoc, ← hcs] at hwhole

end Trellis.Text
