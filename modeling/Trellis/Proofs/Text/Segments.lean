import Mathlib.Data.List.DropRight
import Mathlib.Data.List.Induction
import Trellis.Proofs.Text.Strip
import Trellis.Text.Cut

/-!
# Segments of a text

A text that is cut at separators falls into segments, most of which have white space around them:
`Spaces`.

* `lines_induction`: a text is its last segment, or a segment before a separator and the rest.
* `splitAtEach_flatMap`: segments without separators in them are the pieces of their text.
* `intercalate_splitAtEach`: the pieces with the separator between them are the text.
* `map_stripChars_splitAtEach_append`: white space at the end of a text belongs to its last piece.
* `mem_splitAtEach_trimBoth`: separators at the ends of a text only add empty pieces.
-/

namespace Trellis.Text

variable {p : Char → Bool} {l : List Char}

/-- White space, or nothing. -/
def Spaces (g : List Char) : Prop := ∀ c ∈ g, isBlank c = true

instance (g : List Char) : Decidable (Spaces g) :=
  decidable_of_iff (g.all isBlank = true) List.all_eq_true

theorem Spaces.not_mem {g : List Char} (hg : Spaces g) {c : Char} (hc : isBlank c = false) :
    c ∉ g := fun hmem => by
  rw [hg c hmem] at hc
  cases hc

theorem splitAtEach_line {b : Char} (run : List Char) (hl : ∀ c ∈ l, p c = false)
    (hb : p b = true) : splitAtEach p (l ++ b :: run) = l :: splitAtEach p run := by
  induction l with
  | nil => rw [List.nil_append, splitAtEach, if_pos hb]
  | cons c l ih =>
    obtain ⟨hc, hl⟩ := List.forall_mem_cons.mp hl
    rw [List.cons_append, splitAtEach, if_neg (by simp [hc]), ih hl]

theorem splitAtEach_last (hl : ∀ c ∈ l, p c = false) : splitAtEach p l = [l] := by
  induction l with
  | nil => rfl
  | cons c l ih =>
    obtain ⟨hc, hl⟩ := List.forall_mem_cons.mp hl
    rw [splitAtEach, if_neg (by simp [hc]), ih hl]

/-- A text is its last line, or a line before a break and the rest. -/
theorem lines_induction {P : List Char → Prop} (last : ∀ l, (∀ c ∈ l, p c = false) → P l)
    (line : ∀ l b run, (∀ c ∈ l, p c = false) → p b = true → P run → P (l ++ b :: run))
    (run : List Char) : P run := by
  -- The part of the current line that has been read goes along.
  suffices h : ∀ l, (∀ c ∈ l, p c = false) → P (l ++ run) by simpa using h []
  induction run with
  | nil =>
    intro l hl
    rw [List.append_nil]
    exact last l hl
  | cons c run ih =>
    intro l hl
    cases hc : p c with
    | true => exact line l c run hl hc (by simpa using ih [])
    | false =>
      rw [List.append_cons]
      refine ih (l ++ [c]) fun d hd => ?_
      rcases List.mem_append.mp hd with hd | hd
      · exact hl d hd
      · rw [List.mem_singleton.mp hd, hc]

/-- No separator is in a piece. -/
theorem splitAtEach_free {run piece : List Char} (hpiece : piece ∈ splitAtEach p run) :
    ∀ c ∈ piece, p c = false := by
  induction run using lines_induction (p := p) with
  | last l hl =>
    rw [splitAtEach_last hl, List.mem_singleton] at hpiece
    rwa [hpiece]
  | line l b run hl hb ih =>
    rw [splitAtEach_line run hl hb, List.mem_cons] at hpiece
    rcases hpiece with rfl | hpiece
    · exact hl
    · exact ih hpiece

theorem dropTrailing_append_rtakeWhile (p : Char → Bool) (l : List Char) :
    dropTrailing p l ++ l.rtakeWhile p = l :=
  List.rdropWhile_append_rtakeWhile

/-- What is kept of a text reaches up to its last solid character. -/
theorem dropTrailing_append_cons {c : Char} (g m : List Char) (hc : p c = false) :
    dropTrailing p (g ++ c :: m) = g ++ c :: dropTrailing p m := by
  induction m using List.reverseRecOn with
  | nil => exact List.rdropWhile_concat_neg p g c (by simp [hc])
  | append_singleton m d ih =>
    have hassoc : g ++ c :: (m ++ [d]) = (g ++ c :: m) ++ [d] := by simp
    rw [hassoc]
    change (List.rdropWhile p _) = _ ++ _ :: List.rdropWhile p _
    rw [List.rdropWhile_concat, List.rdropWhile_concat]
    split
    · exact ih
    · exact hassoc.symm

/-- A word without separators does not reach over one that stands before the end of a text. -/
theorem suffix_append_cons_iff {sep : Char} {word : List Char} (hword : sep ∉ word)
    (front : List Char) : word <:+ front ++ sep :: l ↔ word <:+ l := by
  refine ⟨fun h => ?_, fun h => h.trans ?_⟩
  · rcases List.suffix_or_suffix_of_suffix h (List.suffix_append front (sep :: l)) with h | h
    · rcases List.suffix_cons_iff.mp h with rfl | h
      · exact absurd List.mem_cons_self hword
      · exact h
    · exact absurd (h.subset List.mem_cons_self) hword
  · exact (List.suffix_cons sep l).trans (List.suffix_append front _)

/-- Segments behind separators are the pieces of their text. -/
theorem splitAtEach_flatMap {α : Type} {sep : Char} {f : α → List Char} {xs : List α}
    (hsep : p sep = true) (hl : ∀ c ∈ l, p c = false) (hxs : ∀ x ∈ xs, ∀ c ∈ f x, p c = false) :
    splitAtEach p (l ++ xs.flatMap fun x => sep :: f x) = l :: xs.map f := by
  induction xs generalizing l with
  | nil => rw [List.flatMap_nil, List.append_nil, splitAtEach_last hl, List.map_nil]
  | cons x xs ih =>
    obtain ⟨hx, hxs⟩ := List.forall_mem_cons.mp hxs
    rw [List.flatMap_cons, List.cons_append, splitAtEach_line _ hl hsep, ih hx hxs, List.map_cons]

/-- Pieces between separators are the pieces of their text. -/
theorem splitAtEach_intercalate {sep : Char} {pieces : List (List Char)} (hsep : p sep = true)
    (hne : pieces ≠ []) (hpieces : ∀ l ∈ pieces, ∀ c ∈ l, p c = false) :
    splitAtEach p ([sep].intercalate pieces) = pieces := by
  induction pieces with
  | nil => exact absurd rfl hne
  | cons l pieces ih =>
    obtain ⟨hl, hpieces⟩ := List.forall_mem_cons.mp hpieces
    cases pieces with
    | nil => rw [List.intercalate_singleton, splitAtEach_last hl]
    | cons m pieces =>
      rw [List.intercalate_cons_cons, List.append_assoc, List.singleton_append,
        splitAtEach_line _ hl hsep, ih (List.cons_ne_nil _ _) hpieces]

/-- White space at the end of a text belongs to its last piece. -/
theorem map_stripChars_splitAtEach_append {right : List Char} (cs : List Char)
    (hright : Spaces right) (hp : ∀ c, isBlank c = true → p c = false) :
    (splitAtEach p (cs ++ right)).map stripChars = (splitAtEach p cs).map stripChars := by
  induction cs using lines_induction (p := p) with
  | last l hl =>
    have hend : ∀ c ∈ l ++ right, p c = false :=
      List.forall_mem_append.mpr ⟨hl, fun c hc => hp c (hright c hc)⟩
    rw [splitAtEach_last hend, splitAtEach_last hl, List.map_singleton, List.map_singleton,
      stripChars_append l hright]
  | line l b run hl hb ih =>
    rw [List.append_assoc, List.cons_append, splitAtEach_line _ hl hb, splitAtEach_line _ hl hb,
      List.map_cons, List.map_cons, ih]

/-! ## The whole text -/

theorem splitAtEach_ne_nil (p : Char → Bool) (cs : List Char) : splitAtEach p cs ≠ [] := by
  cases cs with
  | nil => exact List.cons_ne_nil _ _
  | cons c cs =>
    rw [splitAtEach]
    split
    · exact List.cons_ne_nil _ _
    · split <;> exact List.cons_ne_nil _ _

/-- The pieces of a text with the separator between them are the text. -/
theorem intercalate_splitAtEach (sep : Char) (cs : List Char) :
    [sep].intercalate (splitAtEach (· == sep) cs) = cs := by
  induction cs with
  | nil => rfl
  | cons c cs ih =>
    rw [splitAtEach]
    obtain ⟨piece, pieces, hpieces⟩ :=
      List.exists_cons_of_ne_nil (splitAtEach_ne_nil (· == sep) cs)
    rw [hpieces] at ih ⊢
    split
    · next hc =>
      rw [List.intercalate_cons_cons, ih, beq_iff_eq.mp hc]
      rfl
    · cases pieces with
      | nil =>
        rw [List.intercalate_singleton] at ih ⊢
        rw [ih]
      | cons next pieces =>
        rw [List.intercalate_cons_cons, List.cons_append, List.cons_append,
          ← List.intercalate_cons_cons, ih]

theorem splitOn_injective (sep : Char) : Function.Injective (splitOn sep) := by
  intro a b h
  have hofList : Function.Injective String.ofList := fun _ _ => String.ofList_injective
  have hpieces := hofList.list_map h
  have hchars : a.toList = b.toList := by
    rw [← intercalate_splitAtEach sep a.toList, hpieces, intercalate_splitAtEach]
  exact String.toList_injective hchars

/-! ## Separators at the ends of a text -/

theorem splitAtEach_concat {b : Char} (cs : List Char) (hb : p b = true) :
    splitAtEach p (cs ++ [b]) = splitAtEach p cs ++ [[]] := by
  induction cs using lines_induction (p := p) with
  | last l hl =>
    rw [splitAtEach_line [] hl hb, splitAtEach_last hl]
    rfl
  | line l c run hl hc ih =>
    rw [List.append_assoc, List.cons_append, splitAtEach_line _ hl hc, splitAtEach_line _ hl hc, ih,
      List.cons_append]

/-- The last piece is empty only behind a separator. -/
theorem getLast?_splitAtEach {cs : List Char} (h : (splitAtEach p cs).getLast? = some []) :
    cs = [] ∨ ∃ b ∈ cs.getLast?, p b = true := by
  rcases List.eq_nil_or_concat cs with hnil | ⟨front, b, hcs⟩
  · exact .inl hnil
  · rw [List.concat_eq_append] at hcs
    subst hcs
    refine .inr ⟨b, by simp, ?_⟩
    by_contra hb
    have hb : p b = false := by simpa using hb
    induction front using lines_induction (p := p) with
    | last l hl =>
      rw [splitAtEach_last (List.forall_mem_append.mpr ⟨hl, by simpa using hb⟩)] at h
      simp at h
    | line l c run hl hc ih =>
      rw [List.append_assoc, List.cons_append, splitAtEach_line _ hl hc] at h
      obtain ⟨piece, pieces, hpieces⟩ :=
        List.exists_cons_of_ne_nil (splitAtEach_ne_nil p (run ++ [b]))
      rw [hpieces, List.getLast?_cons_cons, ← hpieces] at h
      exact ih h

/-- Separators at the ends of a text only add empty pieces. -/
theorem mem_splitAtEach_trimBoth {piece : List Char} (cs : List Char) (h : piece ≠ []) :
    piece ∈ splitAtEach p (trimBoth p cs) ↔ piece ∈ splitAtEach p cs := by
  have hfront : piece ∈ splitAtEach p (cs.dropWhile p) ↔ piece ∈ splitAtEach p cs := by
    induction cs with
    | nil => rfl
    | cons c cs ih =>
      by_cases hc : p c = true
      · rw [List.dropWhile_cons_of_pos hc, ih, splitAtEach, if_pos hc, List.mem_cons,
          or_iff_right h]
      · rw [List.dropWhile_cons_of_neg hc]
  rw [trimBoth, dropTrailing_eq_rdropWhile, ← hfront]
  generalize cs.dropWhile p = cs
  clear hfront
  induction cs using List.reverseRecOn with
  | nil => rfl
  | append_singleton cs c ih =>
    by_cases hc : p c = true
    · rw [List.rdropWhile_concat_pos _ _ _ hc, splitAtEach_concat cs hc, List.mem_append,
        List.mem_singleton, or_iff_left h]
      exact ih
    · rw [List.rdropWhile_concat_neg _ _ _ hc]

end Trellis.Text
