import Trellis.Proofs.Text.Marks
import Trellis.Text.Blank
import Trellis.TypeScript.Parse.Expressions

/-!
# Expressions and the names they read

An expression between braces, with the white space it is written with. Its text is what the names in
it are looked for in.

* `Expression.text` is how an expression is written, and `Expression.valued` is the expression that
  asks for the value of a signal wherever its name is read: everywhere but where it is called and
  where its value is asked for already.
* `Expression.marked` is the text with a mark behind each such name. `filled_marked`: filled with
  `.value` it is the text of the valued expression.
* `follows_marked`: in a text that keeps words apart, each mark stands behind a whole name that is
  no member.
-/

namespace Trellis.Output

open Trellis.Text Trellis.Text.Marked
open Trellis.TypeScript.Parse (binaryMarks greaterMarks assignmentMarks unaryMarks unaryWords)
open Trellis.TypeScript.Lexer

/-! ## Words, gaps and literals -/

/-- A character of a name. -/
def isIdentifierChar (c : Char) : Bool := isNamePart c && !isBlank c

/-- A name: characters of names, of which the first is no digit. -/
structure Identifier where
  chars : List Char
  start : (chars.head?.map isNameStart).getD false = true
  all : chars.all isIdentifierChar = true
  deriving DecidableEq

theorem Identifier.chars_ne_nil (n : Identifier) : n.chars ≠ [] := by
  intro h
  have hstart := n.start
  simp [h] at hstart

theorem Identifier.char_of_mem (n : Identifier) {c : Char} (h : c ∈ n.chars) :
    isIdentifierChar c = true :=
  List.all_eq_true.mp n.all c h

/-- The name as a text. -/
def Identifier.text (n : Identifier) : String := String.ofList n.chars

/-- The name of the member that holds the value of a signal. -/
def valueField : Identifier := ⟨"value".toList, by decide, by decide⟩

/-- What asks for the value of a signal, behind its name. -/
def valueText : List Char := '.' :: valueField.chars

/-- A character between words. -/
def isSpaceChar (c : Char) : Bool := isBlank c || isGap c

/-- White space. -/
structure Space where
  chars : List Char
  all : chars.all isSpaceChar = true

/-- No white space. -/
def noSpace : Space := ⟨[], rfl⟩

/-- The text is a number, a string, a template without substitutions or a regular expression. -/
def isLiteral : List Char → Bool
  | [] => false
  | c :: cs =>
    let (kind, _, rest) := cutToken c cs
    ((kind == .number || kind == .string) && rest.isEmpty) ||
      (c == '\x60' && (cutTemplateText cs).2 == ['\x60']) ||
      ((cutRegex (c :: cs)).map (·.2.isEmpty)).getD false

/-- A literal. -/
structure Literal where
  chars : List Char
  whole : isLiteral chars = true

/-- The operators before an operand. -/
def prefixOperators : List String := unaryMarks ++ ["++", "--"] ++ unaryWords ++ ["await"]

/-- The operators after an operand. -/
def postfixOperators : List String := ["++", "--"]

/-- The operators between two operands, assignments and the comma included. -/
def infixOperators : List String :=
  binaryMarks ++ greaterMarks ++ ["instanceof", "in", ","] ++ assignmentMarks

/-! ## Expressions -/

/-- An expression as it is written. Members, keys and calls can ask whether there is an object at
all; several arguments are joined by commas. -/
inductive Expression where
  | word (name : Identifier)
  | literal (value : Literal)
  | member (object : Expression) (ifAny : Bool) (space : Space) (field : Identifier)
  | index (object : Expression) (ifAny : Bool) (key : Expression)
  | call (callee : Expression) (ifAny : Bool) (arguments : Expression)
  | callEmpty (callee : Expression) (ifAny : Bool) (space : Space)
  | before (op : {op // op ∈ prefixOperators}) (operand : Expression)
  | after (operand : Expression) (op : {op // op ∈ postfixOperators})
  | between (left : Expression) (op : {op // op ∈ infixOperators}) (right : Expression)
  | conditional (test yes no : Expression)
  | group (inner : Expression)
  | spaced (left : Space) (inner : Expression) (right : Space)

namespace Expression

/-- What stands between an object and the name of its member. -/
def dot (ifAny : Bool) : List Char := if ifAny then ['?', '.'] else ['.']

/-- What stands between an object and a bracket. -/
def link (ifAny : Bool) : List Char := if ifAny then ['?', '.'] else []

/-- The text of an expression. -/
def text : Expression → List Char
  | word n => n.chars
  | literal l => l.chars
  | member o q s f => o.text ++ (dot q ++ s.chars ++ f.chars)
  | index o q k => o.text ++ (link q ++ ['[']) ++ k.text ++ [']']
  | call c q a => c.text ++ (link q ++ ['(']) ++ a.text ++ [')']
  | callEmpty c q s => c.text ++ (link q ++ ['('] ++ s.chars ++ [')'])
  | before op e => op.val.toList ++ e.text
  | after e op => e.text ++ op.val.toList
  | between l op r => l.text ++ op.val.toList ++ r.text
  | conditional c a b => c.text ++ ['?'] ++ a.text ++ [':'] ++ b.text
  | group e => ['('] ++ e.text ++ [')']
  | spaced l e r => l.chars ++ e.text ++ r.chars

/-- The text starts with a character of a name. -/
def startsWord (s : List Char) : Bool := (s.head?.map isIdentifierChar).getD false

/-- One word would be read where these two texts meet. -/
def joins (s t : List Char) : Bool :=
  (s.getLast?.map isIdentifierChar).getD false && startsWord t

/-- Operators that are words are kept apart from the words beside them. -/
def wordsApart : Expression → Bool
  | word _ | literal _ => true
  | member o _ _ _ => o.wordsApart
  | index o _ k => o.wordsApart && k.wordsApart
  | call c _ a => c.wordsApart && a.wordsApart
  | callEmpty c _ _ => c.wordsApart
  | before op e => !joins op.val.toList e.text && e.wordsApart
  | after e _ => e.wordsApart
  | between l op r =>
    !joins l.text op.val.toList && !joins op.val.toList r.text && l.wordsApart && r.wordsApart
  | conditional c a b => c.wordsApart && a.wordsApart && b.wordsApart
  | group e => e.wordsApart
  | spaced _ e _ => e.wordsApart

/-! ### Names that are read -/

/-- The expression is a name. -/
def isWord (name : Identifier) : Expression → Bool
  | word n => n == name
  | _ => false

/-- The expression is a name, with white space or not. -/
def isCallee (name : Identifier) : Expression → Bool
  | word n => n == name
  | spaced _ e _ => e.isCallee name
  | _ => false

/-- The member is the value of a signal, written as `.value` behind its name. -/
def isValue (name : Identifier) (object : Expression) (ifAny : Bool) (space : Space)
    (field : Identifier) : Bool :=
  object.isWord name && !ifAny && space.chars.isEmpty && field == valueField

/-- The expression that asks for the value of a signal wherever its name is read: where it is
neither called nor followed by `.value`. -/
def valued (name : Identifier) : Expression → Expression
  | word n => if n = name then member (word n) false noSpace valueField else word n
  | literal l => literal l
  | member o q s f => member (if isValue name o q s f then o else o.valued name) q s f
  | index o q k => index (o.valued name) q (k.valued name)
  | call c q a => call (if c.isCallee name then c else c.valued name) q (a.valued name)
  | callEmpty c q s => callEmpty (if c.isCallee name then c else c.valued name) q s
  | before op e => before op (e.valued name)
  | after e op => after (e.valued name) op
  | between l op r => between (l.valued name) op (r.valued name)
  | conditional c a b => conditional (c.valued name) (a.valued name) (b.valued name)
  | group e => group (e.valued name)
  | spaced l e r => spaced l (e.valued name) r

/-- The text of an expression with a mark behind each name that is read so. -/
def marked (name : Identifier) : Expression → Marked
  | word n => if n = name then markedAtEnd n.chars else unmarked n.chars
  | literal l => unmarked l.chars
  | member o q s f =>
    (if isValue name o q s f then unmarked o.text else o.marked name) ++
      unmarked (dot q ++ s.chars ++ f.chars)
  | index o q k =>
    o.marked name ++ unmarked (link q ++ ['[']) ++ k.marked name ++ unmarked [']']
  | call c q a =>
    (if c.isCallee name then unmarked c.text else c.marked name) ++ unmarked (link q ++ ['(']) ++
      a.marked name ++ unmarked [')']
  | callEmpty c q s =>
    (if c.isCallee name then unmarked c.text else c.marked name) ++
      unmarked (link q ++ ['('] ++ s.chars ++ [')'])
  | before op e => unmarked op.val.toList ++ e.marked name
  | after e op => e.marked name ++ unmarked op.val.toList
  | between l op r => l.marked name ++ unmarked op.val.toList ++ r.marked name
  | conditional c a b =>
    c.marked name ++ unmarked ['?'] ++ a.marked name ++ unmarked [':'] ++ b.marked name
  | group e => unmarked ['('] ++ e.marked name ++ unmarked [')']
  | spaced l e r => unmarked l.chars ++ e.marked name ++ unmarked r.chars

variable {name : Identifier}

@[simp]
theorem plain_marked (e : Expression) : (e.marked name).plain = e.text := by
  induction e with
  | word n =>
    rw [marked, text]
    split <;> simp
  | member o q s f ih =>
    rw [marked, plain_append, plain_unmarked, text]
    split <;> simp [ih]
  | call c q a ihc iha =>
    rw [marked, text]
    split <;> simp [ihc, iha]
  | callEmpty c q s ih =>
    rw [marked, text]
    split <;> simp [ih]
  | _ => simp_all [marked, text]

/-- Filled with `.value`, the marked text is that of the valued expression. -/
theorem filled_marked (e : Expression) :
    (e.marked name).filled valueText = (e.valued name).text := by
  induction e with
  | word n =>
    rw [marked, valued]
    split
    · simp [filled_markedAtEnd, n.chars_ne_nil, text, dot, noSpace, valueText]
    · exact filled_unmarked _ _
  | member o q s f ih =>
    rw [marked, valued, text, filled_append, filled_unmarked]
    split <;> simp [ih]
  | call c q a ihc iha =>
    rw [marked, valued, text]
    split <;> simp [ihc, iha]
  | callEmpty c q s ih =>
    rw [marked, valued, text]
    split <;> simp [ih]
  | _ => simp_all [marked, valued, text]

/-! ### Marks stand behind whole names -/

/-- A name behind this character is no part of a longer one, and no member. -/
def IsBorder (c : Char) : Prop := isIdentifierChar c = false ∧ c ≠ '.'

instance : DecidablePred IsBorder := fun c =>
  inferInstanceAs (Decidable (isIdentifierChar c = false ∧ c ≠ '.'))

/-- The text ends with such a character. -/
def EndsWithBorder (s : List Char) : Prop := ∃ t c, s = t ++ [c] ∧ IsBorder c

theorem endsWithBorder_append {s : List Char} (h : EndsWithBorder s) (before : List Char) :
    EndsWithBorder (before ++ s) := by
  obtain ⟨t, c, rfl, hc⟩ := h
  exact ⟨before ++ t, c, (List.append_assoc before t [c]).symm, hc⟩

/-- The text of an opening mark. -/
theorem endsWithBorder_mark {c : Char} (h : IsBorder c) (before s : List Char) :
    EndsWithBorder (before ++ (s ++ [c])) :=
  endsWithBorder_append ⟨s, c, rfl, h⟩ before

theorem startsWord_append {s : List Char} (h : s ≠ []) (t : List Char) :
    startsWord (s ++ t) = startsWord s := by
  rw [startsWord, startsWord, List.head?_append_of_ne_nil _ h]

theorem text_ne_nil (e : Expression) : e.text ≠ [] := by
  induction e with
  | word n => exact n.chars_ne_nil
  | literal l =>
    intro h
    have hwhole := l.whole
    rw [text] at h
    simp [h, isLiteral] at hwhole
  | _ => simp_all [text]

theorem isBorder_space {c : Char} (h : isSpaceChar c = true) : IsBorder c := by
  constructor
  · simp only [isSpaceChar, Bool.or_eq_true] at h
    rcases h with h | h <;> simp [isIdentifierChar, isNamePart, h]
  · rintro rfl
    revert h
    decide

/-- Operators do not end with a dot. -/
theorem operator_getLast? : ∀ op ∈ prefixOperators ++ infixOperators,
    (op.toList.getLast?.map (· != '.')).getD false = true := by
  decide

/-- Behind an operator a word starts on its own. -/
theorem border_of_operator {op : String} (hop : op ∈ prefixOperators ++ infixOperators)
    {s : List Char} (hs : joins op.toList s = false) (before : List Char) :
    EndsWithBorder (before ++ op.toList) ∨ startsWord s = false := by
  have hlast := operator_getLast? op hop
  rcases List.eq_nil_or_concat' op.toList with hnil | ⟨t, c, ht⟩
  · simp [hnil] at hlast
  · simp only [ht, List.getLast?_concat, Option.map_some, Option.getD_some, bne_iff_ne] at hlast
    rw [joins, ht, List.getLast?_concat] at hs
    by_cases hc : isIdentifierChar c = true
    · refine .inr ?_
      simpa [hc] using hs
    · exact .inl (endsWithBorder_append ⟨t, c, ht, by simpa using hc, hlast⟩ before)

theorem startsWord_word (n : Identifier) : startsWord n.chars = true := by
  obtain ⟨chars, hstart, hall⟩ := n
  cases chars with
  | nil => simp at hstart
  | cons c cs =>
    rw [List.all_cons, Bool.and_eq_true] at hall
    exact hall.1

theorem follows_word {n : Identifier} {before : List Char} (h : EndsWithBorder before) :
    Follows n.chars IsBorder before (markedAtEnd n.chars) := by
  intro b a hat
  obtain ⟨rfl, -⟩ := (at_markedAtEnd n.chars_ne_nil).mp hat
  obtain ⟨t, c, rfl, hc⟩ := h
  exact ⟨t, c, by simp, hc⟩

/-- A part that may keep its names. -/
theorem follows_unless {kept : Bool} {s before : List Char} {m : Marked}
    (h : Follows name.chars IsBorder before m) :
    Follows name.chars IsBorder before (if kept then unmarked s else m) := by
  split
  · exact follows_unmarked
  · exact h

theorem plain_unless (kept : Bool) (e : Expression) :
    plain (if kept then unmarked e.text else e.marked name) = e.text := by
  split <;> simp

/-- In a text that keeps words apart, each mark stands behind a whole name that is no member. -/
theorem follows_marked {e : Expression} (he : e.wordsApart = true) {before : List Char}
    (h : EndsWithBorder before ∨ startsWord e.text = false) :
    Follows name.chars IsBorder before (e.marked name) := by
  induction e generalizing before with
  | word n =>
    rw [text, startsWord_word] at h
    have hbefore : EndsWithBorder before := h.resolve_right Bool.noConfusion
    rw [marked]
    split
    · next hn => exact hn ▸ follows_word hbefore
    · exact follows_unmarked
  | literal l => exact follows_unmarked
  | member o q s f ih =>
    rw [text, startsWord_append o.text_ne_nil] at h
    exact (follows_unless (ih he h)).append follows_unmarked
  | index o q k iho ihk =>
    simp only [wordsApart, Bool.and_eq_true] at he
    simp only [text, List.append_assoc, startsWord_append o.text_ne_nil] at h
    have hkey := endsWithBorder_mark (c := '[') (by decide) (before ++ o.text) (link q)
    refine (((iho he.1 h).append follows_unmarked).append (ihk he.2 (.inl ?_))).append
      follows_unmarked
    simpa using hkey
  | call c q a ihc iha =>
    simp only [wordsApart, Bool.and_eq_true] at he
    simp only [text, List.append_assoc, startsWord_append c.text_ne_nil] at h
    have harguments := endsWithBorder_mark (c := '(') (by decide) (before ++ c.text) (link q)
    refine (((follows_unless (ihc he.1 h)).append follows_unmarked).append
      (iha he.2 (.inl ?_))).append follows_unmarked
    simpa [plain_unless] using harguments
  | callEmpty c q s ih =>
    rw [text, startsWord_append c.text_ne_nil] at h
    exact (follows_unless (ih he h)).append follows_unmarked
  | before op e ih =>
    simp only [wordsApart, Bool.and_eq_true, Bool.not_eq_true'] at he
    have hop := border_of_operator (List.mem_append_left _ op.property) he.1 before
    exact follows_unmarked.append (ih he.2 (by simpa using hop))
  | after e op ih =>
    rw [text, startsWord_append e.text_ne_nil] at h
    exact (ih he h).append follows_unmarked
  | between l op r ihl ihr =>
    simp only [wordsApart, Bool.and_eq_true, Bool.not_eq_true'] at he
    obtain ⟨⟨⟨-, hop⟩, hl⟩, hr⟩ := he
    simp only [text, List.append_assoc, startsWord_append l.text_ne_nil] at h
    have hright := border_of_operator (List.mem_append_right _ op.property) hop
      (before ++ l.text)
    exact ((ihl hl h).append follows_unmarked).append (ihr hr (by simpa using hright))
  | conditional c a b ihc iha ihb =>
    simp only [wordsApart, Bool.and_eq_true] at he
    simp only [text, List.append_assoc, startsWord_append c.text_ne_nil] at h
    have hyes := endsWithBorder_mark (c := '?') (by decide) before c.text
    have hno := endsWithBorder_mark (c := ':') (by decide) before (c.text ++ ['?'] ++ a.text)
    refine ((((ihc he.1.1 h).append follows_unmarked).append
      (iha he.1.2 (.inl ?_))).append follows_unmarked).append (ihb he.2 (.inl ?_))
    · simpa using hyes
    · simpa using hno
  | group e ih =>
    have hinner := endsWithBorder_mark (c := '(') (by decide) before []
    exact (follows_unmarked.append (ih he (.inl (by simpa using hinner)))).append follows_unmarked
  | spaced l e r ih =>
    refine (follows_unmarked.append (ih he ?_)).append follows_unmarked
    rw [plain_unmarked]
    rcases List.eq_nil_or_concat' l.chars with hnil | ⟨t, c, ht⟩
    · rw [text, hnil, List.nil_append, startsWord_append e.text_ne_nil] at h
      rwa [hnil, List.append_nil]
    · have hall := l.all
      rw [ht, List.all_append, Bool.and_eq_true, List.all_cons, Bool.and_eq_true] at hall
      exact .inl (ht ▸ endsWithBorder_mark (isBorder_space hall.2.1) before t)

end Expression

end Trellis.Output
