import Trellis.Proofs.Script.Syntax

/-!
# Operands in their places

A text put before the rest of an expression: a call of its method, an operator with its right
operand, or the two branches of a condition.

* A `Source` is an expression with the gap behind it. An expression at the end of a line comment is
  well formed, and what is put behind it is part of the comment.
* A `Context` is what stands behind a first operand; `Context.plug` is the whole with the operand in
  its place.
* `Context.grammatical_plug`: a text put there is read as that operand exactly if its last comment
  ends, it has the precedence that the place takes, and it is no whole number before a point.
* `Source.grammatical_grouped`: in parentheses only the comment counts.
-/

namespace Trellis.Script

open Trellis.TypeScript

/-! ## Sources -/

/-- An expression with the gap behind it. -/
structure Source where
  expr : Expr
  trail : Gap

namespace Source

def text (s : Source) : List Char := s.expr.text ++ s.trail.text

/-- The text is an expression without markup and a gap, which can end in an open comment. -/
structure IsValid (s : Source) : Prop where
  expr : s.expr.Grammatical
  plain : ∀ t ∈ s.expr.lexemes, t.kind ≠ .markup
  trail : s.trail.isValid = true

/-- The last token is a whole number, and nothing stands behind it. -/
def endsInteger (s : Source) : Bool :=
  s.trail.isEmpty && s.expr.lexemes.getLast?.any (·.isInteger)

variable {s : Source}

theorem IsValid.trail_all (h : s.IsValid) : s.trail.all Filler.isValid = true :=
  ((Bool.and_eq_true _ _).mp h.trail).1

/-- **Tokens behind an expression** are read as such unless a comment takes them, or a whole number
takes the point. -/
theorem wellLexed_append {t : Lexeme} {ts : List Lexeme} (h : s.expr.Grammatical)
    (htrail : s.trail.all Filler.isValid = true) (ht : WellLexed (t :: ts))
    (hfollow : (t.behind s.trail).CanFollow) :
    WellLexed (s.expr.lexemes ++ t.behind s.trail :: ts) ↔ s.trail.isClosed = true ∧
      ¬(s.endsInteger = true ∧ t.gap = [] ∧ t.chars = ['.']) := by
  have hgap : (t.behind s.trail).gap.all Filler.isValid = true := by
    rw [Lexeme.behind, List.all_append, htrail, Bool.true_and]
    exact (Lexeme.isValid_iff.mp (ht.1 t List.mem_cons_self)).1
  obtain ⟨u, hu, -⟩ := Expr.canEnd_lexemes h.1
  have hseam := seam_last h.1 hu hfollow hgap
  rw [Lexeme.behind, List.append_eq_nil_iff, ← Lexeme.behind] at hseam
  have hends : s.endsInteger = true ↔ s.trail = [] ∧ u.isInteger = true := by
    rw [endsInteger, hu, Option.any_some, Bool.and_eq_true, List.isEmpty_iff]
  rw [Script.wellLexed_append, wellLexed_behind htrail, hu, hends]
  simp only [h.2, ht, true_and, and_true, Option.mem_some_iff, forall_eq', List.head?_cons, hseam]
  tauto

/-- The expression in parentheses. -/
def grouped (s : Source) : Source :=
  ⟨.group ⟨[], .mark, ['(']⟩ s.expr ((⟨[], .mark, [')']⟩ : Lexeme).behind s.trail), []⟩

theorem lexemes_grouped (s : Source) : s.grouped.expr.lexemes =
    ⟨[], .mark, ['(']⟩ :: (s.expr.lexemes ++ [(⟨[], .mark, [')']⟩ : Lexeme).behind s.trail]) := rfl

theorem text_grouped (s : Source) : s.grouped.expr.text = '(' :: (s.text ++ [')']) := by
  rw [Expr.text, lexemes_grouped, text, Expr.text]
  simp [Lexeme.text, Lexeme.behind, Gap.text]

/-- **In parentheses** an expression is one, unless a comment takes the closing one. -/
theorem grammatical_grouped (h : s.expr.Grammatical)
    (htrail : s.trail.all Filler.isValid = true) :
    s.grouped.expr.Grammatical ↔ s.trail.isClosed = true := by
  have hfits : s.grouped.expr.fits = true := by
    rw [grouped, Expr.fits, h.1]
    rfl
  rw [Expr.Grammatical, lexemes_grouped, wellLexed_opening,
    wellLexed_append h htrail (by decide) (.inr (.inr rfl))]
  simp [hfits]

/-- What stands in parentheses is an expression if the whole is one. -/
theorem grammatical_of_grouped (h : s.grouped.expr.Grammatical) : s.expr.Grammatical := by
  have hlexed := h.2
  rw [lexemes_grouped, wellLexed_opening, Script.wellLexed_append] at hlexed
  have hfits := h.1
  simp only [grouped, Expr.fits, Bool.and_eq_true] at hfits
  exact ⟨hfits.2, hlexed.1⟩

/-- A group ends in its closing parenthesis. -/
theorem endsInteger_of_group {opening inner closing} (h : s.expr.fits = true)
    (hgroup : s.expr = .group opening inner closing) : s.endsInteger = false := by
  rw [hgroup] at h
  simp only [Expr.fits, Bool.and_eq_true] at h
  have hint : closing.isInteger = false := by
    rw [Lexeme.isInteger, (Lexeme.isMark_iff.mp h.1.2).1]
    rfl
  rw [endsInteger, hgroup, Expr.lexemes, List.getLast?_concat, Option.any_some, hint,
    Bool.and_false]

end Source

/-! ## Contexts -/

/-- What stands behind the first operand of an expression. -/
inductive Context where
  /-- A call of a method of the operand. -/
  | receiver (dot method args : Lexeme)
  | left (op : Lexeme) (right : Expr)
  | test (question : Lexeme) (yes : Expr) (colon : Lexeme) (no : Expr)

namespace Context

/-- The token right behind the operand. -/
def sign : Context → Lexeme
  | receiver dot _ _ => dot
  | left op _ => op
  | test question _ _ _ => question

/-- The tokens behind that one. -/
def more : Context → List Lexeme
  | receiver _ method args => [method, args]
  | left _ right => right.lexemes
  | test _ yes colon no => yes.lexemes ++ colon :: no.lexemes

def text (k : Context) : List Char := (k.sign :: k.more).flatMap Lexeme.text

/-- The expression with an operand in its place. -/
def plug : Context → Source → Expr
  | receiver dot method args, s =>
    .suffix (.suffix s.expr [dot.behind s.trail, method]) [args]
  | left op right, s => .between s.expr (op.behind s.trail) right
  | test question yes colon no, s => .conditional s.expr (question.behind s.trail) yes colon no

/-- The precedence of an operand that the place takes. -/
def takes : Context → Level → Bool
  | receiver _ _ _, l => decide (.call ≤ l)
  | left op _, l => (infixLevel? op).any (·.takesLeft l)
  | test _ _ _ _, l => decide (.coalesce ≤ l)

/-- All but the operand fits. The point of a method stands close, other signs behind a gap. -/
def fits : Context → Bool
  | receiver dot method args =>
    dot.isMark "." && dot.gap.isEmpty && method.isName && args.isGroup ['(']
  | left op right =>
    !op.gap.isEmpty && right.fits && (infixLevel? op).any (·.takesRight right.level)
  | test question yes colon no =>
    !question.gap.isEmpty && question.isMark "?" && yes.fits && colon.isMark ":" && no.fits &&
      decide (.assignment ≤ yes.level) && decide (.assignment ≤ no.level)

/-- The text is read as this context. -/
def Grammatical (k : Context) : Prop := k.fits = true ∧ WellLexed (k.sign :: k.more)

instance (k : Context) : Decidable k.Grammatical := inferInstanceAs (Decidable (_ ∧ _))

/-- A point follows, which a whole number takes. -/
def startsPoint : Context → Bool
  | receiver _ _ _ => true
  | _ => false

variable {k : Context} {s : Source}

theorem lexemes_plug (k : Context) (s : Source) :
    (k.plug s).lexemes = s.expr.lexemes ++ k.sign.behind s.trail :: k.more := by
  cases k with
  | receiver dot method args => simp [plug, Expr.lexemes, sign, more]
  | left op right => rfl
  | test question yes colon no => simp [plug, Expr.lexemes, sign, more]

theorem text_plug (k : Context) (s : Source) : (k.plug s).text = s.text ++ k.text := by
  rw [Expr.text, lexemes_plug, Source.text, text, Expr.text]
  simp [Lexeme.behind, Lexeme.text, Gap.text]

theorem fits_plug (hk : k.fits = true) :
    (k.plug s).fits = (s.expr.fits && k.takes s.expr.level) := by
  cases k with
  | receiver dot method args =>
    simp only [fits, Bool.and_eq_true] at hk
    obtain ⟨⟨⟨hdot, -⟩, hmethod⟩, hargs⟩ := hk
    have hdot : (dot.behind s.trail).isMark "." = true := hdot
    have hcall : args.isGroup ['(', '[', '\x60'] = true := by
      rw [Lexeme.isGroup, Bool.and_eq_true, Option.any_eq_true] at hargs ⊢
      obtain ⟨hkind, c, hc, hopen⟩ := hargs
      refine ⟨hkind, c, hc, ?_⟩
      rw [List.contains_iff_mem, List.mem_singleton] at hopen
      rw [hopen]
      decide
    have hlevel : .call ≤ (Expr.suffix s.expr [dot.behind s.trail, method]).level := by
      rw [Expr.level]
      split_ifs <;> decide
    simp [plug, Expr.fits, takes, isLink, hdot, hmethod, hcall, hlevel]
  | left op right =>
    simp only [fits, Bool.and_eq_true] at hk
    obtain ⟨⟨-, hright⟩, hlevel⟩ := hk
    have hop : infixLevel? (op.behind s.trail) = infixLevel? op := rfl
    cases hfound : infixLevel? op with
    | none => simp [hfound] at hlevel
    | some l =>
      rw [hfound, Option.any_some] at hlevel
      simp [plug, Expr.fits, takes, hop, hfound, hright, hlevel]
  | test question yes colon no =>
    simp only [fits, Bool.and_eq_true, decide_eq_true_eq] at hk
    obtain ⟨⟨⟨⟨⟨⟨-, hquestion⟩, hyes⟩, hcolon⟩, hno⟩, hyesLevel⟩, hnoLevel⟩ := hk
    have hquestion : (question.behind s.trail).isMark "?" = true := hquestion
    simp [plug, Expr.fits, takes, hquestion, hyes, hcolon, hno, hyesLevel, hnoLevel]

/-- A method's point stands without a gap, and all other signs with one. -/
theorem sign_point (hk : k.fits = true) :
    (k.sign.gap = [] ∧ k.sign.chars = ['.'] ↔ k.startsPoint = true) ∧
      (k.sign.behind s.trail).CanFollow := by
  cases k with
  | receiver dot method args =>
    simp only [fits, Bool.and_eq_true, List.isEmpty_iff] at hk
    have hchars := (Lexeme.isMark_iff.mp hk.1.1.1).2
    exact ⟨by simp [sign, startsPoint, hk.1.1.2, hchars], .inr (.inl hchars)⟩
  | left op right =>
    simp only [fits, Bool.and_eq_true, Bool.not_eq_true', List.isEmpty_eq_false_iff] at hk
    exact ⟨by simp [sign, startsPoint, hk.1.1],
      .inl (List.append_ne_nil_of_right_ne_nil _ hk.1.1)⟩
  | test question yes colon no =>
    simp only [fits, Bool.and_eq_true, Bool.not_eq_true', List.isEmpty_eq_false_iff] at hk
    exact ⟨by simp [sign, startsPoint, hk.1.1.1.1.1.1],
      .inl (List.append_ne_nil_of_right_ne_nil _ hk.1.1.1.1.1.1)⟩

/-- **An operand in its place** is read as this operand exactly if its last comment ends, it has the
precedence that the place takes, and it is no whole number before a point. -/
theorem grammatical_plug (hk : k.Grammatical) (hs : s.expr.Grammatical)
    (htrail : s.trail.all Filler.isValid = true) :
    (k.plug s).Grammatical ↔ s.trail.isClosed = true ∧ k.takes s.expr.level = true ∧
      (k.startsPoint && s.endsInteger) = false := by
  obtain ⟨hpoint, hfollow⟩ := sign_point (s := s) hk.1
  rw [Expr.Grammatical, fits_plug hk.1, lexemes_plug,
    Source.wellLexed_append hs htrail hk.2 hfollow, hpoint, hs.1, Bool.true_and,
    ← Bool.not_eq_true, Bool.and_eq_true]
  tauto

theorem grammatical_of_plug (hk : k.fits = true) (h : (k.plug s).Grammatical) :
    s.expr.Grammatical := by
  have hfits := h.1
  rw [fits_plug hk, Bool.and_eq_true] at hfits
  have hlexed := h.2
  rw [lexemes_plug, wellLexed_append] at hlexed
  exact ⟨hfits.1, hlexed.1⟩

theorem takes_primary (hk : k.fits = true) : k.takes .primary = true := by
  cases k with
  | receiver dot method args => rfl
  | left op right =>
    have hlevels : ∀ l : Level, l.takesLeft .primary = true := by
      intro l
      cases l <;> decide
    simp only [fits, Bool.and_eq_true] at hk
    rw [takes]
    cases hfound : infixLevel? op with
    | none => simp [hfound] at hk
    | some l => exact hlevels l
  | test question yes colon no => rfl

/-- **An operand in parentheses** stands in every place, if its last comment ends. -/
theorem grammatical_plug_grouped (hk : k.Grammatical) (hs : s.expr.Grammatical)
    (htrail : s.trail.all Filler.isValid = true) :
    (k.plug s.grouped).Grammatical ↔ s.trail.isClosed = true := by
  have hgrouped := Source.grammatical_grouped hs htrail
  constructor
  · intro h
    exact hgrouped.mp (grammatical_of_plug hk.1 h)
  · intro hclosed
    have hread := hgrouped.mpr hclosed
    refine (grammatical_plug hk hread rfl).mpr ⟨rfl, takes_primary hk.1, ?_⟩
    rw [Source.endsInteger_of_group hread.1 rfl, Bool.and_false]

end Context

end Trellis.Script
