import Mathlib.Data.List.Chain
import Trellis.Proofs.Script.Code
import Trellis.Text.Cut

/-!
# Tokens as they are written

The tokens of JavaScript with the gaps before them, so that the text of a list of tokens is what is
written. What stands in brackets other than those of a group, and in strings, templates and regular
expressions, is kept as it is.

* `Lexeme.isValid` says that gap and token are read as such: every comment before a token ends.
* `WellLexed` says that a sequence of tokens is read as these tokens: no token goes on into what
  follows it.
* `Lexeme.joins_isolated`: a parenthesis or a doubled sign goes on into nothing.
-/

namespace Trellis.Script

open Trellis.Text
open Trellis.TypeScript

/-! ## Gaps -/

/-- A piece of the gap between two tokens. -/
inductive Filler where
  | blank (c : Char)
  /-- A comment between `/*` and `*/`. -/
  | block (body : List Char)
  /-- A comment behind `//`, with the character that ends its line, if there is one. -/
  | line (body : List Char) (stop : Option Char)
  deriving DecidableEq

namespace Filler

def text : Filler → List Char
  | blank c => [c]
  | block body => '/' :: '*' :: body ++ ['*', '/']
  | line body stop => '/' :: '/' :: body ++ stop.toList

/-- What follows is no part of the comment. -/
def isClosed : Filler → Bool
  | line _ stop => stop.isSome
  | _ => true

/-- The piece is read as such. -/
def isValid : Filler → Bool
  | blank c => Lexer.isGap c
  | block body => breakAt? ['*', '/'] (body ++ ['*', '/']) == some (body, [])
  | line body stop => body.all (!Lexer.isLineEnd ·) && stop.all Lexer.isLineEnd

end Filler

/-- The gap before a token or at the end of a text. -/
abbrev Gap := List Filler

namespace Gap

def text (g : Gap) : List Char := g.flatMap Filler.text

/-- A token can follow. -/
def isClosed (g : Gap) : Bool := g.all Filler.isClosed

/-- The gap is read as such: only its last comment can be open. -/
def isValid (g : Gap) : Bool := g.all Filler.isValid && isClosed g.dropLast

end Gap

/-! ## Lexemes -/

/-- The kinds of lexemes. -/
inductive Kind where
  | word
  | number
  | mark
  /-- Brackets with all that is in them, a string or a template. -/
  | enclosed
  | regex
  /-- Elements of JSX, or brackets with such elements in them. -/
  | markup
  deriving DecidableEq

/-- The marks of JavaScript. -/
def marks : List String :=
  ["(", ")", ".", "?.", "?", ":", "=>", ",", "=", "+=", "-=", "*=", "/=", "%=", "**=", "<<=", ">>=",
    ">>>=", "&=", "|=", "^=", "&&=", "||=", "??=", "??", "||", "&&", "|", "^", "&", "==", "!=",
    "===", "!==", "<", ">", "<=", ">=", "<<", ">>", ">>>", "+", "-", "*", "/", "%", "**", "!", "~",
    "++", "--"]

/-- The first and the last characters of what is enclosed. -/
def enclosures : List (Char × Char) :=
  [('(', ')'), ('[', ']'), ('\x7b', '\x7d'), ('"', '"'), ('\x27', '\x27'), ('\x60', '\x60')]

/-- Reading comes back to where it started exactly behind the last character. -/
def returnsAtEnd : Scan → List Char → Bool
  | _, [] => false
  | s, c :: cs =>
    match s.step c with
    | none => false
    | some s =>
      if s.place == .code && s.frames.isEmpty then cs.isEmpty else returnsAtEnd s cs

/-- The characters are a lexeme of the kind. -/
def Kind.fits : Kind → List Char → Bool
  | word, cs =>
    let name := if cs.head? == some '#' then cs.drop 1 else cs
    Lexer.atName name && Lexer.cutName false name == (name, [])
  | number, cs =>
    (cs.head?.any fun c => c.isDigit || c == '.') && Lexer.cutNumber cs == (cs, []) && cs != ['.']
  | mark, cs => marks.any (·.toList == cs)
  | enclosed, cs =>
    enclosures.any (fun (first, last) => cs.head? == some first && cs.getLast? == some last) &&
      returnsAtEnd {} cs
  | regex, cs => cs.head? == some '/' && Lexer.cutRegex cs == some (cs, [])
  | markup, cs =>
    (('<', '>') :: enclosures).any fun (first, last) =>
      cs.head? == some first && cs.getLast? == some last

/-- A token with the gap before it. -/
structure Lexeme where
  gap : Gap
  kind : Kind
  chars : List Char
  deriving DecidableEq

namespace Lexeme

def text (t : Lexeme) : List Char := t.gap.text ++ t.chars

/-- The lexeme is read as such. -/
def isValid (t : Lexeme) : Bool := t.gap.isValid && t.gap.isClosed && t.kind.fits t.chars

/-- A decimal number without a point, which takes a point that follows. -/
def isInteger (t : Lexeme) : Bool := t.kind == .number && t.chars.all Lexer.isDigitPart

/-- A character that goes on a name, or the start of an escape that does. -/
def goesOnName (c : Char) : Bool := Lexer.isNamePart c || c == '\\'

/-- The lexeme goes on into what follows: a name or a number into a character of a name, a whole
number into a point, and a mark into a longer mark or a comment. -/
def joins (t : Lexeme) (following : List Char) : Bool :=
  match t.kind with
  | .word | .regex => following.head?.any goesOnName
  | .number => following.head?.any goesOnName || t.isInteger && following.head? == some '.'
  | .mark =>
    (marks ++ ["//", "/*"]).any fun m =>
      t.chars.length < m.toList.length && m.toList.isPrefixOf (t.chars ++ following) &&
        !(m == "?." && (following.drop 1).head?.any Char.isDigit)
  | .enclosed | .markup => false

def isMark (t : Lexeme) (mark : String) : Bool := t.kind == .mark && t.chars == mark.toList

def isWord (t : Lexeme) (word : String) : Bool := t.kind == .word && t.chars == word.toList

/-- Something in brackets or between marks that starts with one of these characters. -/
def isGroup (t : Lexeme) (firsts : List Char) : Bool :=
  (t.kind == .enclosed || t.kind == .markup) && t.chars.head?.any firsts.contains

end Lexeme

/-- The second lexeme can follow the first one. -/
def Seam (t u : Lexeme) : Prop := t.joins u.text = false

instance (t u : Lexeme) : Decidable (Seam t u) := inferInstanceAs (Decidable (_ = _))

/-- The lexemes are read as these, from first to last. -/
def WellLexed (ts : List Lexeme) : Prop := (∀ t ∈ ts, t.isValid = true) ∧ ts.IsChain Seam

instance (ts : List Lexeme) : Decidable (WellLexed ts) := inferInstanceAs (Decidable (_ ∧ _))

/-! ## Texts of tokens -/

section

variable {t u : Lexeme} {ts us : List Lexeme}

theorem wellLexed_append : WellLexed (ts ++ us) ↔ WellLexed ts ∧ WellLexed us ∧
    ∀ t ∈ ts.getLast?, ∀ u ∈ us.head?, Seam t u := by
  rw [WellLexed, WellLexed, WellLexed, List.isChain_append, List.forall_mem_append]
  tauto

/-- A character that starts a lexeme, and an opening parenthesis only where the kind has one. -/
def Kind.CanStart (k : Kind) (c : Char) : Prop :=
  c ≠ '\n' ∧ (c = '(' → k = .mark ∨ k = .enclosed ∨ k = .markup)

theorem Kind.canStart_of_ne {k : Kind} {c : Char} (hline : c ≠ '\n') (hopen : c ≠ '(') :
    k.CanStart c := ⟨hline, fun hc => absurd hc hopen⟩

theorem Kind.canStart_of_atName {k : Kind} {c : Char} {cs : List Char}
    (h : Lexer.atName (c :: cs) = true) : k.CanStart c := by
  refine Kind.canStart_of_ne ?_ ?_
  · rintro rfl
    change Lexer.isNameStart '\n' = true at h
    exact absurd h (by decide)
  · rintro rfl
    change Lexer.isNameStart '(' = true at h
    exact absurd h (by decide)

/-- The pairs of characters around what is enclosed. -/
theorem Kind.canStart_of_pair {k : Kind} (hk : k = .mark ∨ k = .enclosed ∨ k = .markup) {c : Char}
    {cs : List Char} {pairs : List (Char × Char)} (hline : ∀ x ∈ pairs, x.1 ≠ '\n')
    (h : (pairs.any fun (first, last) =>
      (c :: cs).head? == some first && (c :: cs).getLast? == some last) = true) :
    k.CanStart c := by
  obtain ⟨x, hx, hends⟩ := List.any_eq_true.mp h
  simp only [Bool.and_eq_true, beq_iff_eq, List.head?_cons, Option.some.injEq] at hends
  rw [hends.1]
  exact ⟨hline x hx, fun _ => hk⟩

theorem Kind.canStart_of_fits {k : Kind} {c : Char} {cs : List Char}
    (h : k.fits (c :: cs) = true) : k.CanStart c := by
  cases k with
  | word =>
    simp only [fits, Bool.and_eq_true, List.head?_cons, beq_iff_eq, Option.some.injEq] at h
    by_cases hprivate : c = '#'
    · rw [hprivate]
      exact Kind.canStart_of_ne (by decide) (by decide)
    · rw [if_neg hprivate] at h
      exact Kind.canStart_of_atName h.1
  | number =>
    simp only [fits, Bool.and_eq_true, List.head?_cons, Option.any_some, Bool.or_eq_true] at h
    refine Kind.canStart_of_ne ?_ ?_ <;> rintro rfl <;> exact absurd h.1.1 (by decide)
  | mark =>
    obtain ⟨m, hm, hcs⟩ := List.any_eq_true.mp h
    have hmarks : ∀ m ∈ marks, m.toList.head? ≠ some '\n' := by decide
    refine ⟨?_, fun _ => .inl rfl⟩
    rintro rfl
    exact hmarks m hm (by rw [beq_iff_eq.mp hcs]; rfl)
  | enclosed =>
    simp only [fits, Bool.and_eq_true] at h
    exact Kind.canStart_of_pair (.inr (.inl rfl)) (by decide) h.1
  | regex =>
    simp only [fits, Bool.and_eq_true, beq_iff_eq, List.head?_cons, Option.some.injEq] at h
    rw [h.1]
    exact Kind.canStart_of_ne (by decide) (by decide)
  | markup => exact Kind.canStart_of_pair (.inr (.inr rfl)) (by decide) h

theorem Kind.exists_cons_of_fits {k : Kind} {cs : List Char} (h : k.fits cs = true) :
    ∃ c rest, cs = c :: rest ∧ k.CanStart c := by
  cases cs with
  | nil => cases k <;> exact absurd h (by decide)
  | cons c cs => exact ⟨c, cs, rfl, Kind.canStart_of_fits h⟩

/-- A gap starts with a blank or with the slash of a comment. -/
theorem Gap.exists_cons {g : Gap} (hvalid : g.all Filler.isValid = true) (hg : g ≠ []) :
    ∃ c rest, g.text = c :: rest ∧ (Lexer.isGap c = true ∨ c = '/') := by
  obtain ⟨x, xs, rfl⟩ := List.exists_cons_of_ne_nil hg
  have hx := (List.all_eq_true.mp hvalid) x List.mem_cons_self
  cases x with
  | blank c => exact ⟨c, _, rfl, .inl hx⟩
  | block body => exact ⟨'/', _, rfl, .inr rfl⟩
  | line body stop => exact ⟨'/', _, rfl, .inr rfl⟩

theorem Lexeme.isValid_iff : t.isValid = true ↔
    t.gap.all Filler.isValid = true ∧ t.gap.isClosed = true ∧ t.kind.fits t.chars = true := by
  rw [Lexeme.isValid, Gap.isValid]
  simp only [Bool.and_eq_true]
  constructor
  · rintro ⟨⟨⟨hvalid, -⟩, hclosed⟩, hfits⟩
    exact ⟨hvalid, hclosed, hfits⟩
  · rintro ⟨hvalid, hclosed, hfits⟩
    refine ⟨⟨⟨hvalid, ?_⟩, hclosed⟩, hfits⟩
    exact List.all_eq_true.mpr fun x hx =>
      List.all_eq_true.mp hclosed x (List.dropLast_subset _ hx)

/-- A lexeme is more than a line feed. -/
theorem Lexeme.exists_solid (h : t.isValid = true) : ∃ c ∈ t.text, c ≠ '\n' := by
  obtain ⟨c, rest, hchars, hstart⟩ := Kind.exists_cons_of_fits (Lexeme.isValid_iff.mp h).2.2
  refine ⟨c, List.mem_append_right _ ?_, hstart.1⟩
  rw [hchars]
  exact List.mem_cons_self

/-- A lexeme that starts with an opening parenthesis has no gap before it. -/
theorem Lexeme.head_of_head_text (h : t.isValid = true) (hhead : t.text.head? = some '(') :
    t.chars.head? = some '(' := by
  obtain ⟨hgap, -, -⟩ := Lexeme.isValid_iff.mp h
  by_cases hnil : t.gap = []
  · rwa [Lexeme.text, hnil] at hhead
  · obtain ⟨c, rest, htext, hc⟩ := Gap.exists_cons hgap hnil
    rw [Lexeme.text, htext] at hhead
    obtain rfl := Option.some.inj hhead
    rcases hc with hc | hc <;> exact absurd hc (by decide)

/-- Only a mark and what is enclosed start with an opening parenthesis. -/
theorem Lexeme.kind_of_open (h : t.isValid = true) (hhead : t.text.head? = some '(') :
    t.kind = .mark ∨ t.kind = .enclosed ∨ t.kind = .markup := by
  obtain ⟨c, rest, hchars, hstart⟩ := Kind.exists_cons_of_fits (Lexeme.isValid_iff.mp h).2.2
  have hopen := Lexeme.head_of_head_text h hhead
  rw [hchars, List.head?_cons, Option.some.injEq] at hopen
  exact hstart.2 hopen

theorem Lexeme.not_open_of_word (h : t.isValid = true) (hk : t.kind = .word) :
    t.text.head? ≠ some '(' := by
  intro hhead
  rcases Lexeme.kind_of_open h hhead with hkind | hkind | hkind <;> rw [hk] at hkind <;> cases hkind

theorem Lexeme.kind_of_isWord {word : String} (h : t.isWord word = true) : t.kind = .word := by
  simp only [Lexeme.isWord, Bool.and_eq_true, beq_iff_eq] at h
  exact h.1

theorem Lexeme.isMark_iff {mark : String} :
    t.isMark mark = true ↔ t.kind = .mark ∧ t.chars = mark.toList := by
  rw [Lexeme.isMark, Bool.and_eq_true, beq_iff_eq, beq_iff_eq]

theorem Lexeme.not_open_of_isMark {mark : String} (h : t.isValid = true)
    (hmark : t.isMark mark = true) (hne : mark.toList.head? ≠ some '(') :
    t.text.head? ≠ some '(' := by
  intro hhead
  have hopen := Lexeme.head_of_head_text h hhead
  rw [(Lexeme.isMark_iff.mp hmark).2] at hopen
  exact hne hopen

/-- What starts with an opening parenthesis and is enclosed ends with a closing one. -/
theorem Lexeme.closing_mem (h : t.isValid = true) (hgroup : t.isGroup ['('] = true) :
    ')' ∈ t.text := by
  obtain ⟨-, -, hfits⟩ := Lexeme.isValid_iff.mp h
  simp only [Lexeme.isGroup, Bool.and_eq_true, Bool.or_eq_true, beq_iff_eq] at hgroup
  obtain ⟨hkind, hhead⟩ := hgroup
  obtain ⟨c, rest, hchars, -⟩ := Kind.exists_cons_of_fits hfits
  obtain rfl : c = '(' := by simpa [hchars] using hhead
  have hpair : ∀ pairs : List (Char × Char), (∀ x ∈ pairs, x.1 = '(' → x.2 = ')') →
      (pairs.any fun (first, last) =>
        t.chars.head? == some first && t.chars.getLast? == some last) = true →
      ')' ∈ t.text := by
    intro pairs hpairs hany
    obtain ⟨x, hx, hends⟩ := List.any_eq_true.mp hany
    simp only [Bool.and_eq_true, beq_iff_eq, hchars, List.head?_cons, Option.some.injEq] at hends
    rw [hpairs x hx hends.1.symm, ← hchars] at hends
    exact List.mem_append_right _ (List.mem_of_getLast? hends.2)
  rcases hkind with hkind | hkind <;> rw [hkind] at hfits
  · simp only [Kind.fits, Bool.and_eq_true] at hfits
    exact hpair enclosures (by decide) hfits.1
  · exact hpair _ (by decide) hfits

/-- The text of lexemes starts with that of the first one. -/
theorem head_flatMap_text (hvalid : t.isValid = true) :
    ((t :: ts).flatMap Lexeme.text).head? = t.text.head? := by
  obtain ⟨c, rest, hchars, -⟩ := Kind.exists_cons_of_fits (Lexeme.isValid_iff.mp hvalid).2.2
  rw [List.flatMap_cons, List.head?_append, Lexeme.text, hchars, List.head?_append]
  cases t.gap.text <;> rfl

/-! ## Tokens that go on into nothing -/

/-- The marks that end an expression. -/
def endMarks : List String := [")", "++", "--"]

/-- No mark goes on where another one ends an expression or opens a group. -/
theorem isolated_marks : ∀ m ∈ "(" :: endMarks, ∀ long ∈ marks ++ ["//", "/*"],
    m.toList.length < long.toList.length → m.toList.isPrefixOf long.toList = false := by
  decide

theorem Lexeme.joins_isolated {m : String} (hm : m ∈ "(" :: endMarks) (hkind : t.kind = .mark)
    (hchars : t.chars = m.toList) (following : List Char) : t.joins following = false := by
  rw [Lexeme.joins, hkind, hchars]
  refine List.any_eq_false.mpr fun long hlong hjoins => ?_
  simp only [Bool.and_eq_true, decide_eq_true_eq, List.isPrefixOf_iff_prefix] at hjoins
  obtain ⟨⟨hlength, hprefix⟩, -⟩ := hjoins
  have hshort : m.toList <+: long.toList :=
    List.prefix_of_prefix_length_le (List.prefix_append _ _) hprefix hlength.le
  have hno := isolated_marks m hm long hlong hlength
  rw [List.isPrefixOf_iff_prefix.mpr hshort] at hno
  cases hno

/-- A token that can stand behind every expression: behind a gap, a point or a parenthesis. -/
def Lexeme.CanFollow (t : Lexeme) : Prop :=
  t.gap ≠ [] ∨ t.chars = ['.'] ∨ t.chars = [')']

/-- The text of such a token starts with a blank, with a comment, or with the mark itself. -/
theorem Lexeme.head_of_canFollow (h : t.CanFollow) (hgap : t.gap.all Filler.isValid = true) :
    ∃ c rest, t.text = c :: rest ∧ Lexeme.goesOnName c = false ∧
      (c = '.' ↔ t.gap = [] ∧ t.chars = ['.']) := by
  by_cases hnil : t.gap = []
  · have htext : t.text = t.chars := by rw [Lexeme.text, hnil]; rfl
    rcases h with hne | hpoint | hclosing
    · exact absurd hnil hne
    · exact ⟨'.', [], htext.trans hpoint, by decide, by simp [hnil, hpoint]⟩
    · exact ⟨')', [], htext.trans hclosing, by decide, by simp [hnil, hclosing]⟩
  · obtain ⟨c, rest, htext, hc⟩ := Gap.exists_cons hgap hnil
    refine ⟨c, rest ++ t.chars, by rw [Lexeme.text, htext]; rfl, ?_, ?_⟩
    · rcases hc with hc | rfl
      · have hslash : c ≠ '\\' := by
          rintro rfl
          exact absurd hc (by decide)
        simp [Lexeme.goesOnName, Lexer.isNamePart, hc, hslash]
      · decide
    · constructor
      · rintro rfl
        exact absurd hc (by decide)
      · intro hpoint
        exact absurd hpoint.1 hnil

/-! ## More gap -/

/-- The token with one more gap before it. -/
def Lexeme.behind (g : Gap) (t : Lexeme) : Lexeme := { t with gap := g ++ t.gap }

theorem wellLexed_behind {g : Gap} (hg : g.all Filler.isValid = true) :
    WellLexed (t.behind g :: ts) ↔ g.isClosed = true ∧ WellLexed (t :: ts) := by
  have hvalid : (t.behind g).isValid = true ↔ g.isClosed = true ∧ t.isValid = true := by
    rw [Lexeme.isValid_iff, Lexeme.isValid_iff]
    simp only [Lexeme.behind, Gap.isClosed, List.all_append, Bool.and_eq_true, hg, true_and]
    tauto
  have hseam : ∀ u, Seam (t.behind g) u ↔ Seam t u := fun _ => Iff.rfl
  rw [WellLexed, WellLexed, List.forall_mem_cons, List.forall_mem_cons, hvalid, List.isChain_cons,
    List.isChain_cons]
  simp only [hseam]
  tauto

theorem wellLexed_opening :
    WellLexed (⟨[], .mark, ['(']⟩ :: ts) ↔ WellLexed ts := by
  have hseam : ∀ u, Seam ⟨[], .mark, ['(']⟩ u := fun u =>
    Lexeme.joins_isolated (m := "(") List.mem_cons_self rfl rfl u.text
  have hvalid : (⟨[], .mark, ['(']⟩ : Lexeme).isValid = true := by decide
  rw [WellLexed, WellLexed, List.forall_mem_cons, List.isChain_cons]
  simp only [hvalid, hseam, true_and, implies_true]

end

end Trellis.Script
