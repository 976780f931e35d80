import Mathlib.Data.List.DropRight

/-!
# Runs of a class

Scanners read the longest run of a class of characters, or of tokens, and go on with what stopped
it.

* `takeWhile_run` and `dropWhile_run`: a run that is followed by something else, or by nothing, is
  read whole and is all that is read.
* `exists_split`: what is not a run as a whole has a first element that is not of the class.
-/

namespace Trellis.Text

variable {α : Type} {p : α → Bool} {run rest l : List α}

theorem takeWhile_run (hrun : ∀ x ∈ run, p x = true) (hrest : ∀ x ∈ rest.head?, p x = false) :
    (run ++ rest).takeWhile p = run := by
  rw [List.takeWhile_append_of_pos hrun]
  cases rest with
  | nil => exact List.append_nil run
  | cons x rest => rw [List.takeWhile_cons_of_neg (by simp [hrest x rfl]), List.append_nil]

theorem dropWhile_run (hrun : ∀ x ∈ run, p x = true) (hrest : ∀ x ∈ rest.head?, p x = false) :
    (run ++ rest).dropWhile p = rest := by
  rw [List.dropWhile_append_of_pos hrun]
  cases rest with
  | nil => rfl
  | cons x rest => rw [List.dropWhile_cons_of_neg (by simp [hrest x rfl])]

/-- What stops a run is not of its class. -/
theorem head?_dropWhile (p : α → Bool) (l : List α) : ∀ x ∈ (l.dropWhile p).head?, p x = false := by
  intro x hx
  have hstop := List.head?_dropWhile_not p l
  rwa [Option.mem_def.mp hx] at hstop

theorem exists_dropWhile_eq_cons (h : l.dropWhile p ≠ []) :
    ∃ x m, l.dropWhile p = x :: m ∧ p x = false := by
  obtain ⟨x, m, hm⟩ := List.exists_cons_of_ne_nil h
  exact ⟨x, m, hm, head?_dropWhile p l x (by rw [hm]; rfl)⟩

/-- The first element that is not in the run at the start. -/
theorem exists_split (h : l.all p = false) : ∃ x m, l = l.takeWhile p ++ x :: m ∧ p x = false := by
  have hne : l.dropWhile p ≠ [] := fun hnil => by
    rw [List.all_eq_true.mpr (List.dropWhile_eq_nil_iff.mp hnil)] at h
    cases h
  obtain ⟨x, m, hm, hx⟩ := exists_dropWhile_eq_cons hne
  exact ⟨x, m, by rw [← hm, List.takeWhile_append_dropWhile], hx⟩

/-- Elements other than one that does not occur. -/
theorem forall_bne [BEq α] [LawfulBEq α] {a : α} (h : a ∉ l) : ∀ x ∈ l, (x != a) = true :=
  fun _ hx => bne_iff_ne.mpr fun heq => h (heq ▸ hx)

end Trellis.Text
