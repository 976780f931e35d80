import Trellis.Text.Blank
import Trellis.Text.Cut
import Trellis.Text.Letter
import Trellis.Template.Token

/-!
# Reading templates into tokens

The lexer is a state machine over the characters still to be read. Every text has tokens:
malformed markup stays text or gives the best sequence of tokens that can be made of it.

* `Lexer.step` reads once in the current mode and gives the tokens found and the next state.
* `Lexer.run` steps until no character is left. A step may read nothing, but then it moves to a
  mode of lower `Mode.rank` (`Lexer.step_before`), so the run ends.
* `tokenize` runs the lexer over a template from its start.
-/

namespace Trellis.Template

open Trellis.Text

/-- What the lexer is about to read. -/
inductive Mode where
  | data
  | tagName
  | beforeAttrName
  | attrName
  | afterAttrName
  | beforeAttrValue
  | quotedValue (quote : Char)
  | unquotedValue
  | endTagName
  deriving DecidableEq, Repr

/-- How many steps may follow in this mode before a character is read. -/
def Mode.rank : Mode → Nat
  | .data => 0
  | .attrName => 0
  | .quotedValue _ => 0
  | .beforeAttrName => 1
  | .endTagName => 1
  | .tagName => 2
  | .afterAttrName => 2
  | .unquotedValue => 2
  | .beforeAttrValue => 3

theorem Mode.rank_le (m : Mode) : m.rank ≤ 3 := by
  cases m <;> simp [Mode.rank]

/-- A lexer: its mode, its place in the source and the characters from there on. -/
structure Lexer where
  mode : Mode
  cursor : Cursor
  rest : List Char
  deriving DecidableEq, Repr

namespace Lexer

/-- The lexer after reading `taken`, with `rest` left. -/
def move (l : Lexer) (taken rest : List Char) (mode : Mode) : Lexer :=
  ⟨mode, l.cursor.skip taken, rest⟩

/-- The token with the given value that covers the characters `taken` at the current place. -/
def token (l : Lexer) (kind : TokenKind) (value taken : List Char) : Token :=
  ⟨kind, String.ofList value, Span.between l.cursor (l.cursor.skip taken)⟩

/-! ## Character classes and cuts -/

/-- A character that separates the parts of a tag. -/
def isSpace (c : Char) : Bool := c == ' ' || c == '\t' || c == '\n' || c == '\r'

/-- A character that can open a quoted attribute value. -/
def isQuote (c : Char) : Bool := c == '"' || c == '\x27'

/-- The constructs that end a stretch of text. -/
inductive Opening where
  | interpolation
  | comment
  | endTag
  | tag
  deriving DecidableEq, Repr

/-- The construct that starts here. A `<` that can start no tag is text. -/
def opening? : List Char → Option Opening
  | '\x7b' :: '\x7b' :: _ => some .interpolation
  | '<' :: '!' :: '-' :: '-' :: _ => some .comment
  | '<' :: '/' :: _ => some .endTag
  | '<' :: c :: _ => if isLetter c then some .tag else none
  | _ => none

/-- The text up to the next construct, and the rest. -/
def cutText : List Char → List Char × List Char
  | [] => ([], [])
  | c :: cs =>
    if (opening? (c :: cs)).isSome then ([], c :: cs)
    else
      let (text, rest) := cutText cs
      (c :: text, rest)

/-- The inside of an interpolation of which `depth` are open, its closing braces (none if the
source ends first), and the rest. Doubled braces nest. -/
def cutInterpolation : Nat → List Char → List Char × List Char × List Char
  | _, [] => ([], [], [])
  | depth, '\x7b' :: '\x7b' :: cs =>
    let (inside, close, rest) := cutInterpolation (depth + 1) cs
    ('\x7b' :: '\x7b' :: inside, close, rest)
  | depth, '\x7d' :: '\x7d' :: cs =>
    if depth ≤ 1 then ([], ['\x7d', '\x7d'], cs)
    else
      let (inside, close, rest) := cutInterpolation (depth - 1) cs
      ('\x7d' :: '\x7d' :: inside, close, rest)
  | depth, c :: cs =>
    let (inside, close, rest) := cutInterpolation depth cs
    (c :: inside, close, rest)

/-- The inside of a comment, its closing mark (none if the source ends first), and the rest. -/
def cutComment : List Char → List Char × List Char × List Char
  | [] => ([], [], [])
  | '-' :: '-' :: '>' :: cs => ([], ['-', '-', '>'], cs)
  | c :: cs =>
    let (inside, close, rest) := cutComment cs
    (c :: inside, close, rest)

/-- An attribute name and the rest, with `brackets` and `parens` open so far. Separators belong
to the name while a bracket or parenthesis is open; quotes and angle brackets never do. -/
def cutAttrName (brackets parens : Int) : List Char → List Char × List Char
  | [] => ([], [])
  | c :: cs =>
    if isQuote c || c == '<' || c == '>' then ([], c :: cs)
    else if brackets ≤ 0 ∧ parens ≤ 0 ∧ (isSpace c || c == '=' || c == '/') then ([], c :: cs)
    else
      let brackets := if c = '[' then brackets + 1 else if c = ']' then brackets - 1 else brackets
      let parens := if c = '(' then parens + 1 else if c = ')' then parens - 1 else parens
      let (name, rest) := cutAttrName brackets parens cs
      (c :: name, rest)

/-- An unquoted attribute value and the rest. -/
def cutUnquoted : List Char → List Char × List Char
  | [] => ([], [])
  | '/' :: '>' :: cs => ([], '/' :: '>' :: cs)
  | c :: cs =>
    if isSpace c || c == '>' then ([], c :: cs)
    else
      let (value, rest) := cutUnquoted cs
      (c :: value, rest)

/-- The lexer after the separators at the current place. -/
def skipSpace (l : Lexer) : Lexer :=
  l.move (l.rest.takeWhile isSpace) (l.rest.dropWhile isSpace) l.mode

/-! ## One step -/

/-- Reads text, an interpolation, a comment, or the opening of a tag. -/
def readData (l : Lexer) : List Token × Lexer :=
  match opening? l.rest, l.rest with
  | some .interpolation, _ =>
    let (inside, close, rest) := cutInterpolation 1 (l.rest.drop 2)
    let taken := '\x7b' :: '\x7b' :: inside ++ close
    ([l.token .interpolation (stripChars inside) taken], l.move taken rest .data)
  | some .comment, _ =>
    let (inside, close, rest) := cutComment (l.rest.drop 4)
    let taken := '<' :: '!' :: '-' :: '-' :: inside ++ close
    ([l.token .comment (stripChars inside) taken], l.move taken rest .data)
  | some .endTag, _ =>
    ([l.token .tagEndOpen ['<', '/'] ['<', '/']], l.move ['<', '/'] (l.rest.drop 2) .endTagName)
  | some .tag, _ =>
    ([l.token .tagOpen ['<'] ['<']], l.move ['<'] (l.rest.drop 1) .tagName)
  | none, c :: cs =>
    let (text, rest) := cutText cs
    ([l.token .text (c :: text) (c :: text)], l.move (c :: text) rest .data)
  | none, [] => ([], l)

/-- Reads the name of an opening tag. -/
def readTagName (l : Lexer) : List Token × Lexer :=
  let inName := fun c => !(isSpace c || c == '>' || c == '/')
  let name := l.rest.takeWhile inName
  ([l.token .tagName name name], l.move name (l.rest.dropWhile inName) .beforeAttrName)

/-- Closes the opening tag, passes a stray slash, or goes on to an attribute. -/
def readBeforeAttrName (l : Lexer) : List Token × Lexer :=
  let l := l.skipSpace
  match l.rest with
  | [] => ([], l)
  | '>' :: cs => ([l.token .tagClose ['>'] ['>']], l.move ['>'] cs .data)
  | '/' :: '>' :: cs =>
    ([l.token .tagSelfClose ['/', '>'] ['/', '>']], l.move ['/', '>'] cs .data)
  | '/' :: cs => ([], l.move ['/'] cs .beforeAttrName)
  | _ => ([], { l with mode := .attrName })

/-- Reads the `=` at the current place, if one stands there; otherwise goes to `mode`. -/
def readEquals (l : Lexer) (mode : Mode) : List Token × Lexer :=
  match l.rest with
  | '=' :: cs => ([l.token .attrEquals ['='] ['=']], l.move ['='] cs .beforeAttrValue)
  | _ => ([], { l with mode })

/-- An attribute name of at least one character, and the rest: junk that can start no name, such
as a bare quote, is a name by itself. -/
def cutAttrToken (cs : List Char) : List Char × List Char :=
  match cutAttrName 0 0 cs, cs with
  | ([], _), c :: rest => ([c], rest)
  | cut, _ => cut

/-- Reads an attribute name, at least one character of it, and an `=` directly after it. -/
def readAttrName (l : Lexer) : List Token × Lexer :=
  let (name, rest) := cutAttrToken l.rest
  let mode : Mode := if (rest.head?.map isSpace).getD false then .afterAttrName else .beforeAttrName
  let (equals, next) := (l.move name rest mode).readEquals mode
  (l.token .attrName name name :: equals, next)

/-- Looks for an `=` that is set off from the attribute's name. -/
def readAfterAttrName (l : Lexer) : List Token × Lexer :=
  l.skipSpace.readEquals .beforeAttrName

/-- Opens a quoted value, or finds an unquoted one or none. -/
def readBeforeAttrValue (l : Lexer) : List Token × Lexer :=
  let l := l.skipSpace
  match l.rest with
  | [] => ([], l)
  | '>' :: _ => ([], { l with mode := .beforeAttrName })
  | '/' :: '>' :: _ => ([], { l with mode := .beforeAttrName })
  | c :: cs =>
    if isQuote c then ([], l.move [c] cs (.quotedValue c))
    else ([], { l with mode := .unquotedValue })

/-- Reads a value up to its closing quote, or to the end of the source, and passes the quote. -/
def readQuotedValue (l : Lexer) (quote : Char) : List Token × Lexer :=
  let value := l.rest.takeWhile (· != quote)
  let tail := l.rest.dropWhile (· != quote)
  ([l.token .attrValue value value],
    l.move (value ++ tail.take 1) (tail.drop 1) .beforeAttrName)

/-- Reads an unquoted value. -/
def readUnquotedValue (l : Lexer) : List Token × Lexer :=
  let (value, rest) := cutUnquoted l.rest
  ([l.token .attrValue value value], l.move value rest .beforeAttrName)

/-- Reads the name of a closing tag and the `>` after it, if one stands there. -/
def readEndTagName (l : Lexer) : List Token × Lexer :=
  let inName := fun c => !(isSpace c || c == '<' || c == '>')
  let l := l.skipSpace
  let name := l.rest.takeWhile inName
  let after := (l.move name (l.rest.dropWhile inName) .data).skipSpace
  match after.rest with
  | '>' :: cs =>
    ([l.token .tagName name name, after.token .tagClose ['>'] ['>']], after.move ['>'] cs .data)
  | _ => ([l.token .tagName name name], after)

/-- One reading in the current mode. -/
def step (l : Lexer) : List Token × Lexer :=
  match l.mode with
  | .data => l.readData
  | .tagName => l.readTagName
  | .beforeAttrName => l.readBeforeAttrName
  | .attrName => l.readAttrName
  | .afterAttrName => l.readAfterAttrName
  | .beforeAttrValue => l.readBeforeAttrValue
  | .quotedValue quote => l.readQuotedValue quote
  | .unquotedValue => l.readUnquotedValue
  | .endTagName => l.readEndTagName

/-! ## Progress -/

/-- What every step on a non-empty rest lowers: the characters left, then the mode's rank. -/
def Before (a b : Lexer) : Prop :=
  a.rest.length < b.rest.length ∨ a.rest.length = b.rest.length ∧ a.mode.rank < b.mode.rank

theorem length_cutText_le (cs : List Char) : (cutText cs).2.length ≤ cs.length := by
  induction cs with
  | nil => simp [cutText]
  | cons c cs ih =>
    unfold cutText
    split
    · simp
    · exact Nat.le_succ_of_le ih

theorem length_cutInterpolation_le (depth : Nat) (cs : List Char) :
    (cutInterpolation depth cs).2.2.length ≤ cs.length := by
  fun_induction cutInterpolation depth cs with
  | case1 => exact Nat.le_refl _
  | case2 depth cs inside close rest hcut ih =>
    rw [hcut] at ih
    exact Nat.le_succ_of_le (Nat.le_succ_of_le ih)
  | case3 => exact Nat.le_add_right _ 2
  | case4 depth cs _ inside close rest hcut ih =>
    rw [hcut] at ih
    exact Nat.le_succ_of_le (Nat.le_succ_of_le ih)
  | case5 depth c cs _ _ inside close rest hcut ih =>
    rw [hcut] at ih
    exact Nat.le_succ_of_le ih

theorem length_cutComment_le (cs : List Char) : (cutComment cs).2.2.length ≤ cs.length := by
  fun_induction cutComment cs with
  | case1 => exact Nat.le_refl _
  | case2 => exact Nat.le_add_right _ 3
  | case3 c cs _ inside close rest hcut ih =>
    rw [hcut] at ih
    exact Nat.le_succ_of_le ih

theorem length_cutAttrName_le (brackets parens : Int) (cs : List Char) :
    (cutAttrName brackets parens cs).2.length ≤ cs.length := by
  fun_induction cutAttrName brackets parens cs with
  | case1 | case2 | case3 => exact Nat.le_refl _
  | case4 brackets parens c cs _ _ _ _ name rest hcut ih =>
    rw [hcut] at ih
    exact Nat.le_succ_of_le ih

theorem length_cutUnquoted_le (cs : List Char) : (cutUnquoted cs).2.length ≤ cs.length := by
  fun_induction cutUnquoted cs with
  | case1 | case2 | case3 => exact Nat.le_refl _
  | case4 c cs _ _ value rest hcut ih =>
    rw [hcut] at ih
    exact Nat.le_succ_of_le ih

theorem length_drop_lt {α : Type} {n : Nat} {xs : List α} (hn : 0 < n) (hx : xs ≠ []) :
    (xs.drop n).length < xs.length := by
  have := List.length_pos_iff.2 hx
  rw [List.length_drop]
  omega

theorem readData_before {l : Lexer} (h : l.rest ≠ []) :
    l.readData.2.rest.length < l.rest.length := by
  unfold readData
  split
  · exact Nat.lt_of_le_of_lt (length_cutInterpolation_le 1 _) (length_drop_lt (by decide) h)
  · exact Nat.lt_of_le_of_lt (length_cutComment_le _) (length_drop_lt (by decide) h)
  · exact length_drop_lt (by decide) h
  · exact length_drop_lt (by decide) h
  · rename_i c cs _ hr
    rw [hr]
    exact Nat.lt_succ_of_le (length_cutText_le cs)
  · contradiction

theorem length_skipSpace_le (l : Lexer) : l.skipSpace.rest.length ≤ l.rest.length :=
  (List.dropWhile_suffix _).length_le

theorem readBeforeAttrName_before {l : Lexer} (h : l.rest ≠ []) :
    l.readBeforeAttrName.2.rest.length < l.rest.length ∨
      l.readBeforeAttrName.2.rest.length ≤ l.rest.length ∧
        l.readBeforeAttrName.2.mode = .attrName := by
  have hs := length_skipSpace_le l
  unfold readBeforeAttrName
  dsimp only
  split
  · rename_i hr
    rw [hr]
    exact .inl (List.length_pos_iff.2 h)
  · rename_i cs hr
    rw [hr] at hs
    exact .inl hs
  · rename_i cs hr
    rw [hr] at hs
    exact .inl (Nat.lt_of_succ_lt hs)
  · rename_i cs _ hr
    rw [hr] at hs
    exact .inl hs
  · exact .inr ⟨hs, rfl⟩

theorem readEquals_before (l : Lexer) (mode : Mode) :
    (l.readEquals mode).2.rest.length < l.rest.length ∨
      (l.readEquals mode).2.rest = l.rest ∧ (l.readEquals mode).2.mode = mode := by
  unfold readEquals
  split <;> simp_all [move]

theorem length_cutAttrToken_lt {cs : List Char} (h : cs ≠ []) :
    (cutAttrToken cs).2.length < cs.length := by
  obtain ⟨c, rest, rfl⟩ := List.exists_cons_of_ne_nil h
  unfold cutAttrToken
  split
  · rename_i hc
    cases hc
    exact Nat.lt_succ_self _
  · rename_i hne
    have hn := hne (cutAttrName 0 0 (c :: rest)).2 c rest
    unfold cutAttrName at hn ⊢
    split
    · simp_all
    · split
      · simp_all
      · exact Nat.lt_succ_of_le (length_cutAttrName_le _ _ rest)

theorem readAttrName_before {l : Lexer} (h : l.rest ≠ []) :
    l.readAttrName.2.rest.length < l.rest.length := by
  have hlt := length_cutAttrToken_lt h
  unfold readAttrName
  dsimp only
  rcases readEquals_before (l.move (cutAttrToken l.rest).1 (cutAttrToken l.rest).2 _) _ with hq | hq
  · exact Nat.lt_trans hq hlt
  · rw [hq.1]
    exact hlt

theorem readBeforeAttrValue_before {l : Lexer} (h : l.rest ≠ []) :
    l.readBeforeAttrValue.2.rest.length < l.rest.length ∨
      l.readBeforeAttrValue.2.rest.length ≤ l.rest.length ∧
        l.readBeforeAttrValue.2.mode.rank < 3 := by
  have hs := length_skipSpace_le l
  have hp := List.length_pos_iff.2 h
  unfold readBeforeAttrValue
  dsimp only
  split
  · rename_i hr
    left
    simpa [hr] using hp
  · exact .inr ⟨hs, by simp [Mode.rank]⟩
  · exact .inr ⟨hs, by simp [Mode.rank]⟩
  · rename_i hr
    split
    · left
      rw [hr] at hs
      exact hs
    · exact .inr ⟨hs, by simp [Mode.rank]⟩

theorem readQuotedValue_before {l : Lexer} (h : l.rest ≠ []) (quote : Char) :
    (l.readQuotedValue quote).2.rest.length < l.rest.length := by
  obtain ⟨c, cs, hr⟩ := List.exists_cons_of_ne_nil h
  simp only [readQuotedValue, move, hr, List.length_drop, List.length_cons]
  have hle := (List.dropWhile_suffix (fun d => d != quote) (l := c :: cs)).length_le
  rw [List.length_cons] at hle
  omega

theorem readEndTagName_before (l : Lexer) :
    l.readEndTagName.2.rest.length ≤ l.rest.length ∧ l.readEndTagName.2.mode = .data := by
  have hs := length_skipSpace_le l
  unfold readEndTagName
  dsimp only
  have hd := (List.dropWhile_suffix (fun c => !(isSpace c || c == '<' || c == '>'))
    (l := l.skipSpace.rest)).length_le
  split
  · rename_i hr
    have ha := length_skipSpace_le (l.skipSpace.move
      (l.skipSpace.rest.takeWhile fun c => !(isSpace c || c == '<' || c == '>'))
      (l.skipSpace.rest.dropWhile fun c => !(isSpace c || c == '<' || c == '>')) .data)
    rw [hr] at ha
    simp only [move, List.length_cons] at ha ⊢
    exact ⟨by omega, trivial⟩
  · exact ⟨Nat.le_trans (List.dropWhile_suffix _).length_le (Nat.le_trans hd hs), rfl⟩

/-- **Every step makes progress**: it reads a character or moves to a mode of lower rank. -/
theorem step_before {l : Lexer} (h : l.rest ≠ []) : l.step.2.Before l := by
  unfold step
  split <;> rename_i hm
  · exact .inl (readData_before h)
  · have hle := (List.dropWhile_suffix (fun c => !(isSpace c || c == '>' || c == '/'))
      (l := l.rest)).length_le
    rcases Nat.lt_or_eq_of_le hle with hl | hl
    · exact .inl hl
    · exact .inr ⟨hl, by simp [readTagName, move, hm, Mode.rank]⟩
  · rcases readBeforeAttrName_before h with hl | ⟨hl, hk⟩
    · exact .inl hl
    · rcases Nat.lt_or_eq_of_le hl with hl | hl
      · exact .inl hl
      · exact .inr ⟨hl, by simp [hk, hm, Mode.rank]⟩
  · exact .inl (readAttrName_before h)
  · have hs := length_skipSpace_le l
    unfold readAfterAttrName
    rcases readEquals_before l.skipSpace .beforeAttrName with hl | ⟨hl, hk⟩
    · exact .inl (Nat.lt_of_lt_of_le hl hs)
    · rcases Nat.lt_or_eq_of_le hs with hs | hs
      · exact .inl (by rw [hl]; exact hs)
      · exact .inr ⟨by rw [hl]; exact hs, by simp [hk, hm, Mode.rank]⟩
  · rcases readBeforeAttrValue_before h with hl | ⟨hl, hk⟩
    · exact .inl hl
    · rcases Nat.lt_or_eq_of_le hl with hl | hl
      · exact .inl hl
      · exact .inr ⟨hl, by rw [hm]; exact hk⟩
  · exact .inl (readQuotedValue_before h _)
  · rcases Nat.lt_or_eq_of_le (length_cutUnquoted_le l.rest) with hl | hl
    · exact .inl hl
    · exact .inr ⟨hl, by simp [readUnquotedValue, move, hm, Mode.rank]⟩
  · obtain ⟨hl, hk⟩ := readEndTagName_before l
    rcases Nat.lt_or_eq_of_le hl with hl | hl
    · exact .inl hl
    · exact .inr ⟨hl, by simp [hk, hm, Mode.rank]⟩

/-! ## The whole run -/

/-- Steps until no character is left; gives the tokens and the place reached. -/
def run (l : Lexer) : List Token × Cursor :=
  if _h : l.rest = [] then ([], l.cursor)
  else
    let (later, place) := l.step.2.run
    (l.step.1 ++ later, place)
-- One number and no pair, so that the tokens of a given template can be computed in proofs.
termination_by 4 * l.rest.length + l.mode.rank
decreasing_by
  have hrank := l.step.2.mode.rank_le
  rcases step_before _h with hl | ⟨hl, hk⟩ <;> omega

/-- The lexer at the start of a source text. -/
def start (source : String) : Lexer := ⟨.data, {}, source.toList⟩

end Lexer

/-- The tokens of a template. -/
def tokenize (source : String) : TokenStream :=
  let (tokens, place) := (Lexer.start source).run
  ⟨tokens, ⟨.eof, "", Span.between place place⟩⟩

end Trellis.Template
