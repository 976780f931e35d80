import Mathlib.Data.List.Basic
import Trellis.Text.Cut

/-!
# Steps of a substitution

A substitution goes through a text from left to right. At each place its rule puts new characters
in the place of some, or it passes a character.

* `substituteFrom_match` and `substituteFrom_pass` are the two steps. What the rule sees next is the
  last character that was taken or passed.
* A rule is `Within` a class of characters if it only takes such characters and looks at no others.
  Where two texts meet at a `Seam`, which is no place between two such characters, it treats each
  of them alone: `splits_substitute`.
-/

namespace Trellis.Text

variable {rule : Rule} {prev : Option Char} {c : Char} {s : List Char}

/-- The rest of a match is passed. -/
theorem substituteFrom_skip (rule : Rule) (prev : Option Char) (t s : List Char) :
    substituteFrom rule prev t.length (t ++ s) =
      substituteFrom rule (t.getLast?.or prev) 0 s := by
  induction t generalizing prev with
  | nil => rfl
  | cons c t ih =>
    have hlast : (c :: t).getLast?.or prev = t.getLast?.or (some c) := by
      rw [List.getLast?_cons]
      cases t.getLast? <;> rfl
    rw [List.length_cons, List.cons_append, substituteFrom, ih, hlast]

theorem substituteFrom_match {t new : List Char}
    (h : rule prev (c :: (t ++ s)) = some (t.length + 1, new)) :
    substituteFrom rule prev 0 (c :: (t ++ s)) =
      new ++ substituteFrom rule (t.getLast?.or (some c)) 0 s := by
  rw [substituteFrom, h]
  exact congrArg _ (substituteFrom_skip rule (some c) t s)

theorem substituteFrom_pass (h : rule prev (c :: s) = none) :
    substituteFrom rule prev 0 (c :: s) = c :: substituteFrom rule (some c) 0 s := by
  rw [substituteFrom, h]

/-! ## Seams -/

/-- The rule takes characters of a class only, and looks at no others. -/
structure Rule.Within (rule : Rule) (p : Char → Bool) : Prop where
  /-- A character before the place that is not of the class is like none. -/
  start : ∀ c s, p c = false → rule (some c) s = rule none s
  /-- No match starts with a character that is not of the class. -/
  outside : ∀ prev c s, p c = false → rule prev (c :: s) = none
  /-- Nothing that follows such a character counts. -/
  ahead : ∀ prev t c s, t ≠ [] → p c = false → rule prev (t ++ c :: s) = rule prev t
  /-- A match is a part of the text. -/
  bounded : ∀ prev s found, rule prev s = some found → found.1 ≤ s.length

/-- Not both sides of the place where the texts meet are of the class. -/
def Seam (p : Char → Bool) (s t : List Char) : Prop :=
  ∀ c ∈ s.getLast?, ∀ d ∈ t.head?, p c = true → p d = false

/-- A function on texts that treats the two sides of a seam alone. -/
def Splits (p : Char → Bool) (f : List Char → List Char) : Prop :=
  ∀ s t, Seam p s t → f (s ++ t) = f s ++ f t ∧ Seam p (f s) (f t)

variable {p : Char → Bool}

theorem seam_nil (s : List Char) : Seam p s [] := by
  intro c _ d hd
  cases hd

theorem nil_seam (s : List Char) : Seam p [] s := by
  intro c hc
  cases hc

theorem seam_cons (s : List Char) {c : Char} (hc : p c = false) (t : List Char) :
    Seam p s (c :: t) := by
  intro b _ d hd _
  obtain rfl := Option.some.inj hd
  exact hc

theorem seam_concat (s : List Char) {c : Char} (hc : p c = false) (t : List Char) :
    Seam p (s ++ [c]) t := by
  intro b hb d _ hpb
  rw [List.getLast?_concat] at hb
  obtain rfl := Option.some.inj hb
  rw [hc] at hpb
  cases hpb

theorem Seam.of_append {s t r : List Char} (h : Seam p (s ++ t) r) : Seam p t r := by
  intro c hc
  refine h c ?_
  rw [List.getLast?_append, hc]
  rfl

/-- A seam is at the end, at the start, or beside a character that is not of the class. -/
theorem Seam.cases {s t : List Char} (h : Seam p s t) :
    s = [] ∨ t = [] ∨ (∃ s' c, s = s' ++ [c] ∧ p c = false) ∨
      ∃ c t', t = c :: t' ∧ p c = false := by
  rcases List.eq_nil_or_concat' s with rfl | ⟨s, c, rfl⟩
  · exact .inl rfl
  · cases t with
    | nil => exact .inr (.inl rfl)
    | cons d t =>
      by_cases hc : p c = true
      · exact .inr (.inr (.inr ⟨d, t, rfl, h c (by simp) d rfl hc⟩))
      · exact .inr (.inr (.inl ⟨s, c, rfl, by simpa using hc⟩))

/-- Characters of the class are in front of one that is not. -/
theorem prefix_append_cons {w : List Char} (hw : ∀ c ∈ w, p c = true) {c : Char} (hc : p c = false)
    (t s : List Char) : w <+: t ++ c :: s ↔ w <+: t := by
  refine ⟨fun h => ?_, fun h => h.trans (List.prefix_append t _)⟩
  rcases List.prefix_or_prefix_of_prefix h (List.prefix_append t _) with h' | ⟨u, rfl⟩
  · exact h'
  · rw [List.prefix_append_right_inj] at h
    cases u with
    | nil => simp
    | cons b u =>
      have hb := hw b (by simp)
      rw [(List.cons_prefix_cons.mp h).1, hc] at hb
      cases hb

theorem Splits.comp {f g : List Char → List Char} (hg : Splits p g) (hf : Splits p f) :
    Splits p fun s => g (f s) := by
  intro s t h
  obtain ⟨hf, hseam⟩ := hf s t h
  have hcomp := hg (f s) (f t) hseam
  rw [← hf] at hcomp
  exact hcomp

namespace Rule.Within

variable (h : rule.Within p)

include h

/-- Behind a character that is not of the class a text is treated alone. -/
theorem substituteFrom_some (hc : p c = false) (s : List Char) :
    substituteFrom rule (some c) 0 s = substituteFrom rule none 0 s := by
  cases s with
  | nil => rfl
  | cons d s => rw [substituteFrom, substituteFrom, h.start c (d :: s) hc]

/-- A text that starts with such a character. -/
theorem substituteFrom_cons (hc : p c = false) (prev : Option Char) (s : List Char) :
    substituteFrom rule prev 0 (c :: s) = c :: substituteFrom rule none 0 s := by
  rw [substituteFrom_pass (h.outside prev c s hc), h.substituteFrom_some hc]

/-- The two sides of such a character. -/
theorem substituteFrom_append (hc : p c = false) (skip : Nat) (t s : List Char)
    (hskip : skip ≤ t.length) : substituteFrom rule prev skip (t ++ c :: s) =
      substituteFrom rule prev skip t ++ c :: substituteFrom rule none 0 s := by
  induction t generalizing prev skip with
  | nil =>
    obtain rfl := Nat.le_zero.mp hskip
    rw [List.nil_append, h.substituteFrom_cons hc]
    rfl
  | cons d t ih =>
    cases skip with
    | succ skip => exact ih skip (Nat.le_of_succ_le_succ hskip)
    | zero =>
      have hahead := h.ahead prev (d :: t) c s (List.cons_ne_nil d t) hc
      rw [List.cons_append] at hahead ⊢
      rw [substituteFrom, substituteFrom, hahead]
      cases hfound : rule prev (d :: t) with
      | none => exact congrArg (d :: ·) (ih 0 (Nat.zero_le _))
      | some found =>
        have hbound := h.bounded prev (d :: t) found hfound
        rw [List.length_cons] at hbound
        have hrest : substituteFrom rule (some d) (found.1 - 1) (t ++ c :: s) =
            substituteFrom rule (some d) (found.1 - 1) t ++ c :: substituteFrom rule none 0 s :=
          ih (found.1 - 1) (by omega)
        exact (congrArg (found.2 ++ ·) hrest).trans (List.append_assoc ..).symm

/-- **A rule within a class treats the two sides of a seam alone.** -/
theorem splits_substitute : Splits p (substituteFrom rule none 0) := by
  intro s t hseam
  rcases hseam.cases with rfl | rfl | ⟨s, c, rfl, hc⟩ | ⟨c, t, rfl, hc⟩
  · exact ⟨rfl, nil_seam _⟩
  · rw [List.append_nil, substituteFrom, List.append_nil]
    exact ⟨rfl, seam_nil _⟩
  · have hs : substituteFrom rule none 0 (s ++ [c]) = substituteFrom rule none 0 s ++ [c] :=
      h.substituteFrom_append hc 0 s [] (Nat.zero_le _)
    rw [List.append_assoc, List.singleton_append, h.substituteFrom_append hc 0 s t (Nat.zero_le _),
      hs, List.append_assoc]
    exact ⟨rfl, seam_concat _ hc _⟩
  · rw [h.substituteFrom_append hc 0 s t (Nat.zero_le _), h.substituteFrom_cons hc]
    exact ⟨rfl, seam_cons _ hc _⟩

end Rule.Within

end Trellis.Text
