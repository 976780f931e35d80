import Trellis.Proofs.Text.Segments
import Trellis.Text.Lines
import Trellis.TypeScript.Token

/-!
# Literals in code

The literals of a code are its strings and the texts of its template literals, each with the marks
around it: a template literal with substitutions has a text before each of them and one after the
last, and the code of a substitution has literals of its own.

* `Reader.step` reads one character. Only the grammar knows whether a slash starts a regular
  expression or divides, so this is given for each slash, in order. A reader goes on behind the end
  of a line in a string or in a regular expression, where code that is well formed has none.
* `literals?` are the literals of a code. It gives none if a line comment holds a character, such as
  a form feed, that ends lines of text but no lines of code.
* White space at the start of a line does not change what a reader stands in (`step_of_calm`), and
  it does not matter which character ends a line (`step_break`).
* `literals?_braces`: a block has the literals of its inside.
-/

namespace Trellis.Script

open Trellis.Text
open Trellis.TypeScript

/-! ## Reading -/

/-- What a character stands in. -/
inductive Region where
  | code
  /-- Behind a slash. -/
  | slash
  | lineComment
  /-- In a comment between slashes, behind a star or not. -/
  | blockComment (star : Bool)
  /-- In a string between double or single quotes, behind a backslash or not. -/
  | string (isDouble escaped : Bool)
  /-- In a regular expression, in a class of characters or not, behind a backslash or not. -/
  | regex (inClass escaped : Bool)
  /-- In the text of a template literal, behind a backslash or a dollar sign. -/
  | template (last : Option Char)
  deriving DecidableEq, Repr

/-- The region is a literal. -/
def Region.isLiteral : Region → Bool
  | .string _ _ => true
  | .template _ => true
  | _ => false

/-- How far a code has been read: the region, for each brace that is open if it is that of a
substitution, and for each slash to come if it starts a regular expression. -/
structure Reader where
  region : Region := .code
  braces : List Bool := []
  slashes : List Bool := []
  deriving DecidableEq, Repr

namespace Reader

/-- The reader is inside of a literal. -/
def inLiteral (r : Reader) : Bool := r.region.isLiteral

/-- Reads a character of code. The brace at the end of a substitution leads back into its template
literal. -/
def stepCode (r : Reader) (c : Char) : Reader :=
  if c = '\x7b' then { r with region := .code, braces := false :: r.braces }
  else if c = '\x7d' then
    { r with
      region := if r.braces.head? = some true then .template none else .code
      braces := r.braces.tail }
  else if c = '"' then { r with region := .string true false }
  else if c = '\x27' then { r with region := .string false false }
  else if c = '\x60' then { r with region := .template none }
  else if c = '/' then { r with region := .slash }
  else { r with region := .code }

/-- Reads the character behind a slash. -/
def stepSlash (r : Reader) (c : Char) : Reader :=
  if c = '/' then { r with region := .lineComment }
  else if c = '*' then { r with region := .blockComment false }
  else if r.slashes.head? = some true then
    { r with region := .regex (c == '[') (c == '\\'), slashes := r.slashes.tail }
  else { r with slashes := r.slashes.tail }.stepCode c

/-- Reads a character of a line comment. -/
def stepComment (r : Reader) (c : Char) : Option Reader :=
  if Lexer.isLineEnd c then some { r with region := .code }
  else if isLineBreak c then none
  else some r

/-- Reads a character of a string. -/
def stepString (r : Reader) (isDouble escaped : Bool) (c : Char) : Reader :=
  if escaped then { r with region := .string isDouble false }
  else if c = '\\' then { r with region := .string isDouble true }
  else if c = (if isDouble then '"' else '\x27') then { r with region := .code }
  else { r with region := .string isDouble false }

/-- Reads a character of a regular expression. -/
def stepRegex (r : Reader) (inClass escaped : Bool) (c : Char) : Reader :=
  if escaped then { r with region := .regex inClass false }
  else if c = '\\' then { r with region := .regex inClass true }
  else if c = '/' then { r with region := if inClass then .regex inClass false else .code }
  else { r with region := .regex ((inClass || c == '[') && c != ']') false }

/-- Reads a character of the text of a template literal. -/
def stepTemplate (r : Reader) (last : Option Char) (c : Char) : Reader :=
  if last = some '\\' then { r with region := .template none }
  else if c = '\x60' then { r with region := .code }
  else if c = '\x7b' ∧ last = some '$' then { r with region := .code, braces := true :: r.braces }
  else if c = '\\' ∨ c = '$' then { r with region := .template (some c) }
  else { r with region := .template none }

/-- Reads one character. -/
def step (r : Reader) (c : Char) : Option Reader :=
  match r.region with
  | .code => some (r.stepCode c)
  | .slash => some (r.stepSlash c)
  | .lineComment => r.stepComment c
  | .blockComment star =>
    some { r with region := if star && c == '/' then .code else .blockComment (c == '*') }
  | .string isDouble escaped => some (r.stepString isDouble escaped c)
  | .regex inClass escaped => some (r.stepRegex inClass escaped c)
  | .template last => some (r.stepTemplate last c)

end Reader

/-- The literals that end in a text; `piece` is what has been read of the one that is open. -/
def literalsFrom : Reader → List Char → List Char → Option (List (List Char))
  | _, _, [] => some []
  | r, piece, c :: cs => (r.step c).bind fun next =>
    let piece := (if r.inLiteral then piece else []) ++ [c]
    if next.inLiteral then literalsFrom next piece cs
    else (literalsFrom next [] cs).map ((if r.inLiteral then [piece] else []) ++ ·)

/-- The literals of a code, in order. `slashes` says of each slash that starts no comment, and that
stands in no literal and no regular expression, if it starts a regular expression. -/
def literals? (slashes : List Bool) (code : List Char) : Option (List (List Char)) :=
  literalsFrom { slashes } [] code

section

variable {r next : Reader} {c : Char}

theorem literalsFrom_cons (h : r.step c = some next) (piece cs : List Char) :
    literalsFrom r piece (c :: cs) =
      if next.inLiteral then literalsFrom next ((if r.inLiteral then piece else []) ++ [c]) cs
      else (literalsFrom next [] cs).map
        ((if r.inLiteral then [(if r.inLiteral then piece else []) ++ [c]] else []) ++ ·) := by
  rw [literalsFrom, h, Option.bind_some]

theorem literalsFrom_of_none (h : r.step c = none) (piece cs : List Char) :
    literalsFrom r piece (c :: cs) = none := by
  rw [literalsFrom, h, Option.bind_none]

/-- Where literals are found, the reader goes on. An open one is finished, or goes on too. -/
theorem exists_step {piece cs : List Char} {literals : List (List Char)}
    (h : literalsFrom r piece (c :: cs) = some literals) :
    ∃ next, r.step c = some next ∧
      (next.inLiteral = true ∧
          literalsFrom next ((if r.inLiteral then piece else []) ++ [c]) cs = some literals ∨
        ¬next.inLiteral = true ∧ ∃ rest, literalsFrom next [] cs = some rest ∧
          (if r.inLiteral then [(if r.inLiteral then piece else []) ++ [c]] else []) ++ rest =
            literals) := by
  cases hstep : r.step c with
  | none =>
    rw [literalsFrom_of_none hstep] at h
    cases h
  | some next =>
    rw [literalsFrom_cons hstep] at h
    refine ⟨next, rfl, ?_⟩
    by_cases hnext : next.inLiteral = true
    · rw [if_pos hnext] at h
      exact .inl ⟨hnext, h⟩
    · rw [if_neg hnext] at h
      exact .inr ⟨hnext, Option.map_eq_some_iff.mp h⟩

/-- Outside of literals nothing is open. -/
theorem literalsFrom_outside (h : r.inLiteral = false) (piece other cs : List Char) :
    literalsFrom r piece cs = literalsFrom r other cs := by
  cases cs with
  | nil => rfl
  | cons c cs =>
    rw [literalsFrom, literalsFrom, h]
    rfl

end

/-! ## White space -/

theorem isBlank_of_isLineBreak {c : Char} (h : isLineBreak c = true) : isBlank c = true := by
  simp only [isLineBreak, isBlank, Bool.or_eq_true, Bool.and_eq_true, decide_eq_true_eq,
    beq_iff_eq] at h ⊢
  omega

/-- White space is none of the marks that mean something to a reader. -/
theorem blank_ne {c : Char} (h : isBlank c = true) (d : Char) (hd : isBlank d = false) : c ≠ d := by
  rintro rfl
  rw [h] at hd
  cases hd

/-- A region in which white space changes nothing. -/
def Region.isCalm : Region → Bool
  | .code => true
  | .blockComment star => !star
  | .string _ escaped => !escaped
  | .regex _ escaped => !escaped
  | .template last => last.isNone
  | _ => false

/-- The reader behind the end of a line. -/
def Reader.settle (r : Reader) : Reader :=
  match r.region with
  | .code => r
  | .slash =>
    { r with
      region := if r.slashes.head? = some true then .regex false false else .code
      slashes := r.slashes.tail }
  | .lineComment => { r with region := .code }
  | .blockComment _ => { r with region := .blockComment false }
  | .string isDouble _ => { r with region := .string isDouble false }
  | .regex inClass _ => { r with region := .regex inClass false }
  | .template _ => { r with region := .template none }

section

variable {r next : Reader} {c : Char}

theorem isCalm_settle (r : Reader) : r.settle.region.isCalm = true := by
  obtain ⟨region, braces, slashes⟩ := r
  cases region with
  | slash =>
    rw [Reader.settle]
    dsimp only
    split <;> rfl
  | _ => rfl

theorem inLiteral_settle (r : Reader) : r.settle.inLiteral = r.inLiteral := by
  obtain ⟨region, braces, slashes⟩ := r
  cases region with
  | slash =>
    rw [Reader.inLiteral, Reader.settle]
    dsimp only
    split <;> rfl
  | _ => rfl

theorem settle_of_calm (h : r.region.isCalm = true) : r.settle = r := by
  obtain ⟨region, braces, slashes⟩ := r
  cases region with
  | code => rfl
  | slash => cases h
  | lineComment => cases h
  | template last => cases last <;> first | rfl | cases h
  | blockComment flag | string _ flag | regex _ flag => cases flag <;> first | rfl | cases h

theorem stepCode_blank (hc : isBlank c = true) (r : Reader) :
    r.stepCode c = { r with region := .code } := by
  have hne := blank_ne hc
  rw [Reader.stepCode, if_neg (hne _ (by decide)), if_neg (hne _ (by decide)),
    if_neg (hne _ (by decide)), if_neg (hne _ (by decide)), if_neg (hne _ (by decide)),
    if_neg (hne _ (by decide))]

theorem stepSlash_blank (hc : isBlank c = true) (r : Reader) :
    r.stepSlash c =
      { r with
        region := if r.slashes.head? = some true then .regex false false else .code
        slashes := r.slashes.tail } := by
  have hne := blank_ne hc
  have hopen : (c == '[') = false := by simpa using hne '[' (by decide)
  have hslash : (c == '\\') = false := by simpa using hne '\\' (by decide)
  rw [Reader.stepSlash, if_neg (hne _ (by decide)), if_neg (hne _ (by decide)), hopen, hslash,
    stepCode_blank hc]
  split <;> rfl

theorem stepString_blank (hc : isBlank c = true) (r : Reader) (isDouble escaped : Bool) :
    r.stepString isDouble escaped c = { r with region := .string isDouble false } := by
  have hne := blank_ne hc
  have hquote : c ≠ if isDouble then '"' else '\x27' := by
    cases isDouble <;> exact hne _ (by decide)
  rw [Reader.stepString, if_neg (hne _ (by decide)), if_neg hquote, ite_self]

theorem stepRegex_blank (hc : isBlank c = true) (r : Reader) (inClass escaped : Bool) :
    r.stepRegex inClass escaped c = { r with region := .regex inClass false } := by
  have hne := blank_ne hc
  have hopen : (c == '[') = false := by simpa using hne '[' (by decide)
  have hclose : (c != ']') = true := by simpa using hne ']' (by decide)
  rw [Reader.stepRegex, if_neg (hne _ (by decide)), if_neg (hne _ (by decide)), hopen, hclose,
    Bool.or_false, Bool.and_true, ite_self]

theorem stepTemplate_blank (hc : isBlank c = true) (r : Reader) (last : Option Char) :
    r.stepTemplate last c = { r with region := .template none } := by
  have hne := blank_ne hc
  have hbrace : ¬(c = '\x7b' ∧ last = some '$') := fun h => hne '\x7b' (by decide) h.1
  have hmark : ¬(c = '\\' ∨ c = '$') := not_or.mpr ⟨hne _ (by decide), hne _ (by decide)⟩
  rw [Reader.stepTemplate, if_neg (hne '\x60' (by decide)), if_neg hbrace, if_neg hmark, ite_self]

/-- Outside of line comments all white space is the same. -/
theorem step_blank (hr : r.region ≠ .lineComment) (hc : isBlank c = true) :
    r.step c = some r.settle := by
  obtain ⟨region, braces, slashes⟩ := r
  cases region with
  | code => exact congrArg some (stepCode_blank hc _)
  | slash => exact congrArg some (stepSlash_blank hc _)
  | lineComment => exact absurd rfl hr
  | blockComment star =>
    have hstar : (c == '*') = false := by simpa using blank_ne hc '*' (by decide)
    have hslash : (c == '/') = false := by simpa using blank_ne hc '/' (by decide)
    rw [Reader.step, hstar, hslash]
    cases star <;> rfl
  | string isDouble escaped => exact congrArg some (stepString_blank hc _ _ _)
  | regex inClass escaped => exact congrArg some (stepRegex_blank hc _ _ _)
  | template last => exact congrArg some (stepTemplate_blank hc _ _)

/-- **White space changes nothing in a calm region.** -/
theorem step_of_calm (hr : r.region.isCalm = true) (hc : isBlank c = true) :
    r.step c = some r := by
  have hcomment : r.region ≠ .lineComment := fun h => by
    rw [h] at hr
    cases hr
  rw [step_blank hcomment hc, settle_of_calm hr]

/-- **It does not matter what ends a line.** -/
theorem step_break (hc : isLineBreak c = true) (h : r.step c = some next) : next = r.settle := by
  by_cases hcomment : r.region = .lineComment
  · obtain ⟨region, braces, slashes⟩ := r
    obtain rfl : region = .lineComment := hcomment
    rw [Reader.step, Reader.stepComment] at h
    split_ifs at h
    exact (Option.some.inj h).symm
  · rw [step_blank hcomment (isBlank_of_isLineBreak hc)] at h
    exact (Option.some.inj h).symm

theorem step_lineFeed (r : Reader) : r.step '\n' = some r.settle := by
  by_cases hcomment : r.region = .lineComment
  · obtain ⟨region, braces, slashes⟩ := r
    obtain rfl : region = .lineComment := hcomment
    rfl
  · exact step_blank hcomment (by decide)

/-- White space neither starts nor ends a literal. -/
theorem inLiteral_step_blank (hc : isBlank c = true) (h : r.step c = some next) :
    next.inLiteral = r.inLiteral := by
  by_cases hcomment : r.region = .lineComment
  · obtain ⟨region, braces, slashes⟩ := r
    obtain rfl : region = .lineComment := hcomment
    rw [Reader.step, Reader.stepComment] at h
    split_ifs at h <;> exact Option.some.inj h ▸ rfl
  · rw [step_blank hcomment hc] at h
    rw [← Option.some.inj h, inLiteral_settle]

end

/-! ## White space around a code -/

section

variable {r : Reader} {piece cs blanks : List Char} {literals : List (List Char)}

/-- White space in a calm region is part of the literal that is open, if there is one. -/
theorem literalsFrom_blanks (hr : r.region.isCalm = true) (hblanks : Spaces blanks)
    (piece cs : List Char) :
    literalsFrom r piece (blanks ++ cs) = literalsFrom r (piece ++ blanks) cs := by
  induction blanks generalizing piece with
  | nil => rw [List.nil_append, List.append_nil]
  | cons c blanks ih =>
    obtain ⟨hc, hblanks⟩ := List.forall_mem_cons.mp hblanks
    rw [List.cons_append, literalsFrom_cons (step_of_calm hr hc)]
    by_cases hliteral : r.inLiteral = true
    · simp only [if_pos hliteral]
      rw [ih hblanks, List.append_assoc, List.singleton_append]
    · have houtside : r.inLiteral = false := by simpa using hliteral
      simp only [houtside, Bool.false_eq_true, if_false]
      rw [ih hblanks, literalsFrom_outside houtside _ (piece ++ c :: blanks)]
      cases literalsFrom r (piece ++ c :: blanks) cs <;> rfl

/-- No literal ends with such a character: in one, it is part of it. -/
def Inert (c : Char) : Prop :=
  ∀ r next : Reader, r.step c = some next → r.inLiteral = true → next.inLiteral = true

theorem inert_blank {c : Char} (hc : isBlank c = true) : Inert c := by
  intro r next h hliteral
  rw [inLiteral_step_blank hc h, hliteral]

theorem inert_closingBrace : Inert '\x7d' := by
  rintro ⟨region, braces, slashes⟩ next h hliteral
  cases region with
  | string isDouble escaped =>
    rw [← Option.some.inj h]
    cases isDouble <;> cases escaped <;> rfl
  | template last =>
    rw [← Option.some.inj h]
    by_cases hlast : last = some '\\'
    · rw [hlast]
      rfl
    · rw [Reader.stepTemplate, if_neg hlast]
      rfl
  | code | slash | lineComment | blockComment _ | regex _ _ => cases hliteral

/-- No literal ends in a text of such characters. -/
theorem literalsFrom_inert {tail : List Char} (htail : ∀ c ∈ tail, Inert c)
    (h : literalsFrom r piece tail = some literals) : literals = [] := by
  induction tail generalizing r piece literals with
  | nil => exact (Option.some.inj h).symm
  | cons c tail ih =>
    obtain ⟨hc, htail⟩ := List.forall_mem_cons.mp htail
    obtain ⟨next, hstep, ⟨-, h⟩ | ⟨hnext, rest, hrest, rfl⟩⟩ := exists_step h
    · exact ih htail h
    · rw [ih htail hrest, if_neg (mt (hc r next hstep) hnext)]
      rfl

/-- **A literal ends in a mark**, not in white space. -/
theorem literalsFrom_last (h : literalsFrom r piece cs = some literals) :
    ∀ literal ∈ literals, ∃ c ∈ literal.getLast?, isBlank c = false := by
  induction cs generalizing r piece literals with
  | nil =>
    rw [← Option.some.inj h]
    exact fun literal hmem => absurd hmem List.not_mem_nil
  | cons c cs ih =>
    obtain ⟨next, hstep, ⟨-, h⟩ | ⟨hnext, rest, hrest, rfl⟩⟩ := exists_step h
    · exact ih h
    · refine List.forall_mem_append.mpr ⟨fun literal hmem => ?_, ih hrest⟩
      by_cases hliteral : r.inLiteral = true
      · rw [if_pos hliteral, List.mem_singleton] at hmem
        rw [hmem, List.getLast?_concat]
        refine ⟨c, rfl, ?_⟩
        by_contra hblank
        exact hnext (inert_blank (by simpa using hblank) r next hstep hliteral)
      · rw [if_neg hliteral] at hmem
        cases hmem

/-- Behind the last literal such characters do not count. -/
theorem literalsFrom_of_append {tail : List Char} (htail : ∀ c ∈ tail, Inert c)
    (h : literalsFrom r piece (cs ++ tail) = some literals) :
    literalsFrom r piece cs = some literals := by
  induction cs generalizing r piece literals with
  | nil => rw [literalsFrom_inert htail h, literalsFrom]
  | cons c cs ih =>
    obtain ⟨next, hstep, ⟨hnext, h⟩ | ⟨hnext, rest, hrest, rfl⟩⟩ := exists_step h
    · rw [literalsFrom_cons hstep, if_pos hnext]
      exact ih h
    · rw [literalsFrom_cons hstep, if_neg hnext, ih hrest, Option.map_some]

/-- **White space around a code** does not change its literals. -/
theorem literals?_trimBoth {slashes : List Bool} {p : Char → Bool}
    (hp : ∀ c, p c = true → isBlank c = true) (h : literals? slashes cs = some literals) :
    literals? slashes (trimBoth p cs) = some literals := by
  have hblanks : Spaces (cs.takeWhile p) := fun c hc => hp c (List.mem_takeWhile_imp hc)
  have hfront : literals? slashes (cs.dropWhile p) = some literals :=
    calc literals? slashes (cs.dropWhile p)
        = literalsFrom { slashes } (cs.takeWhile p) (cs.dropWhile p) :=
          literalsFrom_outside rfl _ _ _
      _ = literalsFrom { slashes } [] (cs.takeWhile p ++ cs.dropWhile p) :=
          (literalsFrom_blanks rfl hblanks [] _).symm
      _ = some literals := by
          rw [List.takeWhile_append_dropWhile]
          exact h
  rw [← dropTrailing_append_rtakeWhile p (cs.dropWhile p)] at hfront
  exact literalsFrom_of_append
    (fun c hc => inert_blank (hp c (List.mem_rtakeWhile_imp hc))) hfront

end

/-! ## Braces around a code -/

/-- One more brace is open. -/
def Reader.within (r : Reader) : Reader := { r with braces := r.braces ++ [false] }

theorem stepCode_within (r : Reader) (c : Char) :
    r.within.stepCode c = (r.stepCode c).within ∨ r.within.stepCode c = r.stepCode c := by
  obtain ⟨region, braces, slashes⟩ := r
  by_cases hclose : c = '\x7d'
  · subst hclose
    cases braces with
    | nil => exact .inr rfl
    | cons isSubstitution braces => exact .inl rfl
  · left
    simp only [Reader.stepCode, if_neg hclose]
    split_ifs <;> rfl

theorem stepSlash_within (r : Reader) (c : Char) :
    r.within.stepSlash c = (r.stepSlash c).within ∨ r.within.stepSlash c = r.stepSlash c := by
  have hslashes : r.within.slashes = r.slashes := rfl
  rw [Reader.stepSlash, Reader.stepSlash]
  by_cases hline : c = '/'
  · rw [if_pos hline, if_pos hline]
    exact .inl rfl
  · rw [if_neg hline, if_neg hline]
    by_cases hblock : c = '*'
    · rw [if_pos hblock, if_pos hblock]
      exact .inl rfl
    · rw [if_neg hblock, if_neg hblock, hslashes]
      by_cases hregex : r.slashes.head? = some true
      · rw [if_pos hregex, if_pos hregex]
        exact .inl rfl
      · rw [if_neg hregex, if_neg hregex]
        exact stepCode_within { r with slashes := r.slashes.tail } c

/-- **A brace that is open around a code** does not matter to it, or is closed. -/
theorem step_within (r : Reader) (c : Char) :
    r.within.step c = (r.step c).map Reader.within ∨ r.within.step c = r.step c := by
  obtain ⟨region, braces, slashes⟩ := r
  cases region with
  | code =>
    rcases stepCode_within ⟨.code, braces, slashes⟩ c with h | h
    · exact .inl (congrArg some h)
    · exact .inr (congrArg some h)
  | slash =>
    rcases stepSlash_within ⟨.slash, braces, slashes⟩ c with h | h
    · exact .inl (congrArg some h)
    · exact .inr (congrArg some h)
  | lineComment =>
    left
    simp only [Reader.within, Reader.step, Reader.stepComment]
    split_ifs <;> rfl
  | blockComment star => exact .inl rfl
  | string isDouble escaped =>
    left
    simp only [Reader.within, Reader.step, Reader.stepString]
    split_ifs <;> rfl
  | regex inClass escaped =>
    left
    simp only [Reader.within, Reader.step, Reader.stepRegex]
    split_ifs <;> rfl
  | template last =>
    left
    simp only [Reader.within, Reader.step, Reader.stepTemplate]
    split_ifs <;> rfl

theorem literalsFrom_within (r : Reader) (piece cs : List Char) :
    literalsFrom r.within piece cs = literalsFrom r piece cs := by
  induction cs generalizing r piece with
  | nil => rfl
  | cons c cs ih =>
    rw [literalsFrom, literalsFrom]
    rcases step_within r c with h | h
    · rw [h]
      cases r.step c with
      | none => rfl
      | some next =>
        simp only [Option.map_some, Option.bind_some, ih]
        rfl
    · rw [h]
      rfl

/-- **A block has the literals of its inside.** -/
theorem literals?_braces {slashes : List Bool} {cs : List Char} {literals : List (List Char)}
    (h : literals? slashes ('\x7b' :: (cs ++ ['\x7d'])) = some literals) :
    literals? slashes cs = some literals := by
  have hinside : literals? slashes ('\x7b' :: (cs ++ ['\x7d'])) =
      (literalsFrom (Reader.within { slashes }) [] (cs ++ ['\x7d'])).map ([] ++ ·) := rfl
  rw [hinside, literalsFrom_within] at h
  simp only [List.nil_append, Option.map_id'] at h
  exact literalsFrom_of_append (List.forall_mem_singleton.mpr inert_closingBrace) h

end Trellis.Script
