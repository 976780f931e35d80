import Trellis.Proofs.Script.Lexeme

/-!
# Expressions as they are written

The expressions of JavaScript as trees, with every token and every gap between tokens, so that the
text of a tree is what is written.

* `Expr.level` is the precedence of an expression, from `comma` to `primary`; `Expr.fits` says that
  every operand has the precedence that its production asks for.
* `Expr.Grammatical` says that the text of a tree is read as this tree: it fits, and its tokens are
  well lexed.
* `Expr.closesFirst`: an expression that starts with an opening parenthesis is one group, or has the
  closing parenthesis before its end.
* `seam_last`: the last token of an expression goes on only as a whole number does, into a point.
-/

namespace Trellis.Script

open Trellis.TypeScript

/-! ## Expressions -/

/-- The levels of precedence, from the loosest to the tightest. -/
inductive Level where
  | comma
  | assignment
  | conditional
  | coalesce
  | or
  | and
  | bitOr
  | bitXor
  | bitAnd
  | equality
  | relational
  | shift
  | additive
  | multiplicative
  | exponent
  | unary
  | update
  | leftHand
  | call
  | member
  | primary
  deriving DecidableEq

namespace Level

instance : LE Level := ⟨fun k l => k.ctorIdx ≤ l.ctorIdx⟩

instance (k l : Level) : Decidable (k ≤ l) := inferInstanceAs (Decidable (_ ≤ _))

/-- The operators between two operands. -/
def infixes : Level → List String
  | comma => [","]
  | assignment =>
    ["=", "+=", "-=", "*=", "/=", "%=", "**=", "<<=", ">>=", ">>>=", "&=", "|=", "^=", "&&=",
      "||=", "??="]
  | coalesce => ["??"]
  | or => ["||"]
  | and => ["&&"]
  | bitOr => ["|"]
  | bitXor => ["^"]
  | bitAnd => ["&"]
  | equality => ["==", "!=", "===", "!=="]
  | relational => ["<", ">", "<=", ">=", "in", "instanceof"]
  | shift => ["<<", ">>", ">>>"]
  | additive => ["+", "-"]
  | multiplicative => ["*", "/", "%"]
  | exponent => ["**"]
  | _ => []

/-- The left operand of an operator of the first level can be of the second one. Operators lean to
the left, but for assignments and powers; `??` stands beside no `||` and no `&&`. -/
def takesLeft (k l : Level) : Bool :=
  match k with
  | assignment => leftHand ≤ l
  | coalesce => l == coalesce || decide (bitOr ≤ l)
  | exponent => update ≤ l
  | k => k ≤ l

/-- The right operand of an operator of the first level can be of the second one. -/
def takesRight (k l : Level) : Bool :=
  match k with
  | assignment => assignment ≤ l
  | coalesce => bitOr ≤ l
  | exponent => exponent ≤ l
  | k => !decide (l ≤ k)

end Level

/-- An expression, token by token. -/
inductive Expr where
  /-- A name, a literal, or brackets of a list, an object or markup. -/
  | atom (t : Lexeme)
  /-- A function or a class, or `new.target`. -/
  | definition (ts : List Lexeme)
  | group (opening : Lexeme) (inner : Expr) (closing : Lexeme)
  /-- A member, an index, a call or a tagged template. -/
  | suffix (object : Expr) (link : List Lexeme)
  /-- Members and calls if there is an object at all. -/
  | chain (object : Expr) (links : List Lexeme)
  | new (keyword : Lexeme) (callee : Expr) (arguments : Option Lexeme)
  | before (ops : List Lexeme) (operand : Expr)
  | after (operand : Expr) (op : Lexeme)
  | between (left : Expr) (op : Lexeme) (right : Expr)
  | conditional (test : Expr) (question : Lexeme) (yes : Expr) (colon : Lexeme) (no : Expr)
  | arrow (head : List Lexeme) (sign : Lexeme) (body : Expr)

/-- The words that are no expression on their own. -/
def reservedWords : List String :=
  ["await", "break", "case", "catch", "class", "const", "continue", "debugger", "default", "delete",
    "do", "else", "enum", "export", "extends", "finally", "for", "function", "if", "in",
    "instanceof", "new", "return", "switch", "throw", "try", "typeof", "var", "void", "while",
    "with"]

/-- The lexeme is a name, as far as operators are concerned. -/
def Lexeme.isName (t : Lexeme) : Bool := t.kind == .word

/-- The lexeme is an expression on its own. -/
def Lexeme.isAtom (t : Lexeme) : Bool :=
  match t.kind with
  | .word => !reservedWords.any (·.toList == t.chars)
  | .number | .regex => true
  | .enclosed | .markup => t.chars.head? != some '('
  | .mark => false

/-- A member, an index, a call or a template behind an object. -/
def isLink : List Lexeme → Bool
  | [t] => t.isGroup ['(', '[', '\x60']
  | [dot, t] => dot.isMark "." && t.isName
  | _ => false

/-- Members, indices and calls behind an object. -/
def isLinks : List Lexeme → Bool
  | [] => true
  | [t] => t.isGroup ['(', '[']
  | t :: u :: ts =>
    t.isMark "." && u.isName && isLinks ts || t.isGroup ['(', '['] && isLinks (u :: ts)

/-- Members, indices and calls of an object that may be missing. -/
def isOptionalLinks : List Lexeme → Bool
  | mark :: t :: ts => mark.isMark "?." && (t.isName || t.isGroup ['(', '[']) && isLinks ts
  | _ => false

/-- Parameters and a body. -/
def isFunctionTail : List Lexeme → Bool
  | [params, body] => params.isGroup ['('] && body.isGroup ['\x7b']
  | [name, params, body] => name.isName && params.isGroup ['('] && body.isGroup ['\x7b']
  | _ => false

/-- A name, what is extended and a body, each but the body optional. -/
def isClassTail : List Lexeme → Bool
  | [] => false
  | [body] => body.isGroup ['\x7b']
  | t :: ts =>
    (t.isName || t.isMark "." || t.isGroup ['(', '[', '\x7b', '\x60']) && isClassTail ts

/-- A function, a class, or the target of `new`. -/
def isDefinition : List Lexeme → Bool
  | t :: u :: ts =>
    t.isWord "function" && (isFunctionTail (u :: ts) || u.isMark "*" && isFunctionTail ts) ||
      t.isWord "async" && u.isWord "function" &&
        (isFunctionTail ts || ts.head?.any (·.isMark "*") && isFunctionTail (ts.drop 1)) ||
      t.isWord "class" && isClassTail (u :: ts) ||
      t.isWord "new" && u.isMark "." && ts.length == 1 && ts.all (·.isWord "target")
  | _ => false

/-- The parameters of an arrow function. -/
def isArrowHead : List Lexeme → Bool
  | [t] => t.isName || t.isGroup ['(']
  | [keyword, t] => keyword.isWord "async" && (t.isName || t.isGroup ['('])
  | _ => false

/-- The level of an operator before its operand. -/
def prefixLevel? : List Lexeme → Option Level
  | [op] =>
    if op.isMark "++" || op.isMark "--" then some .update
    else if op.isWord "yield" then some .assignment
    else if ["+", "-", "~", "!"].any op.isMark then some .unary
    else if ["delete", "void", "typeof", "await"].any op.isWord then some .unary
    else none
  | [keyword, star] =>
    if keyword.isWord "yield" && star.isMark "*" then some .assignment else none
  | _ => none

/-- The level of an operator between two operands. -/
def infixLevel? (op : Lexeme) : Option Level :=
  [.comma, .assignment, .coalesce, .or, .and, .bitOr, .bitXor, .bitAnd, .equality, .relational,
    .shift, .additive, .multiplicative, .exponent].find? fun k : Level =>
      k.infixes.any fun m => op.isMark m || op.isWord m

namespace Expr

/-- The lexemes of an expression. -/
def lexemes : Expr → List Lexeme
  | atom t => [t]
  | definition ts => ts
  | group opening inner closing => opening :: inner.lexemes ++ [closing]
  | suffix object link => object.lexemes ++ link
  | chain object links => object.lexemes ++ links
  | new keyword callee args => keyword :: callee.lexemes ++ args.toList
  | before ops operand => ops ++ operand.lexemes
  | after operand op => operand.lexemes ++ [op]
  | between left op right => left.lexemes ++ op :: right.lexemes
  | conditional test question yes colon no =>
    test.lexemes ++ question :: yes.lexemes ++ colon :: no.lexemes
  | arrow head sign body => head ++ sign :: body.lexemes

/-- The text of an expression. -/
def text (e : Expr) : List Char := e.lexemes.flatMap Lexeme.text

/-- The precedence of an expression. -/
def level : Expr → Level
  | atom t => if t.isWord "yield" then .assignment else .primary
  | definition _ => .primary
  | group _ _ _ => .primary
  | suffix object link =>
    if link.any (·.isGroup ['(']) then .call else if .member ≤ object.level then .member else .call
  | chain _ _ => .leftHand
  | new _ _ args => if args.isSome then .member else .leftHand
  | before ops _ => (prefixLevel? ops).getD .unary
  | after _ _ => .update
  | between _ op _ => (infixLevel? op).getD .comma
  | conditional _ _ _ _ _ => .conditional
  | arrow _ _ _ => .assignment

/-- The expression is a chain that asks whether there is an object. -/
def isChain : Expr → Bool
  | chain _ _ => true
  | _ => false

/-- The expression is an instance without arguments. -/
def isBareNew : Expr → Bool
  | new _ _ args => args.isNone
  | _ => false

/-- Every production has its tokens, and operands of the precedence that it asks for. -/
def fits : Expr → Bool
  | atom t => t.isAtom
  | definition ts => isDefinition ts
  | group opening inner closing => opening.isMark "(" && closing.isMark ")" && inner.fits
  | suffix object link => object.fits && decide (.call ≤ object.level) && isLink link
  | chain object links =>
    object.fits && (decide (.call ≤ object.level) || object.isChain) && isOptionalLinks links
  | new keyword callee args =>
    keyword.isWord "new" && callee.fits &&
      (decide (.member ≤ callee.level) || args.isNone && callee.isBareNew) &&
      args.all (·.isGroup ['('])
  | before ops operand =>
    operand.fits && match prefixLevel? ops with
      | none => false
      | some .update => decide (.leftHand ≤ operand.level)
      | some k => decide (k ≤ operand.level)
  | after operand op =>
    operand.fits && decide (.leftHand ≤ operand.level) && (op.isMark "++" || op.isMark "--")
  | between left op right =>
    left.fits && right.fits && match infixLevel? op with
      | none => false
      | some k => k.takesLeft left.level && k.takesRight right.level
  | conditional test question yes colon no =>
    test.fits && yes.fits && no.fits && question.isMark "?" && colon.isMark ":" &&
      decide (.coalesce ≤ test.level) && decide (.assignment ≤ yes.level) &&
      decide (.assignment ≤ no.level)
  | arrow head sign body =>
    isArrowHead head && sign.isMark "=>" && body.fits && decide (.assignment ≤ body.level)

/-- The text of the expression is read as this tree. -/
def Grammatical (e : Expr) : Prop := e.fits = true ∧ WellLexed e.lexemes

instance (e : Expr) : Decidable e.Grammatical := inferInstanceAs (Decidable (_ ∧ _))

end Expr

/-! ## The first token -/

section

variable {t u : Lexeme} {ts us : List Lexeme} {e : Expr}

namespace Expr

theorem lexemes_ne_nil (h : e.fits = true) : e.lexemes ≠ [] := by
  cases e with
  | atom | group | new | after | between | conditional => simp [lexemes]
  | definition ts =>
    rintro rfl
    cases h
  | suffix object link =>
    simp only [fits, Bool.and_eq_true] at h
    intro hnil
    obtain rfl : link = [] := (List.append_eq_nil_iff.mp hnil).2
    cases h.2
  | chain object links =>
    simp only [fits, Bool.and_eq_true] at h
    intro hnil
    obtain rfl : links = [] := (List.append_eq_nil_iff.mp hnil).2
    cases h.2
  | before ops operand =>
    intro hnil
    obtain rfl : ops = [] := (List.append_eq_nil_iff.mp hnil).1
    simp [fits, prefixLevel?] at h
  | arrow head sign body => simp [lexemes]

/-- The leftmost operand, where an expression starts with one, and the lexemes behind it. -/
def left? : Expr → Option (Expr × List Lexeme)
  | suffix object link => some (object, link)
  | chain object links => some (object, links)
  | after operand op => some (operand, [op])
  | between left op right => some (left, op :: right.lexemes)
  | conditional test question yes colon no =>
    some (test, question :: yes.lexemes ++ colon :: no.lexemes)
  | _ => none

theorem left?_eq_some {l : Expr} {more : List Lexeme} (h : e.fits = true)
    (hleft : e.left? = some (l, more)) :
    l.fits = true ∧ e.lexemes = l.lexemes ++ more ∧ more ≠ [] := by
  cases e with
  | suffix object link =>
    cases hleft
    simp only [fits, Bool.and_eq_true] at h
    refine ⟨h.1.1, rfl, ?_⟩
    rintro rfl
    cases h.2
  | chain object links =>
    cases hleft
    simp only [fits, Bool.and_eq_true] at h
    refine ⟨h.1.1, rfl, ?_⟩
    rintro rfl
    cases h.2
  | after operand op =>
    cases hleft
    simp only [fits, Bool.and_eq_true] at h
    exact ⟨h.1.1, rfl, List.cons_ne_nil _ _⟩
  | between left op right =>
    cases hleft
    simp only [fits, Bool.and_eq_true] at h
    exact ⟨h.1.1, rfl, List.cons_ne_nil _ _⟩
  | conditional test question yes colon no =>
    cases hleft
    simp only [fits, Bool.and_eq_true] at h
    refine ⟨h.1.1.1.1.1.1.1, ?_, List.cons_ne_nil _ _⟩
    simp [lexemes]
  | atom | definition | group | new | before | arrow => cases hleft

theorem head_text_of_append {l : Expr} {more : List Lexeme} (hl : l.fits = true)
    (h : e.lexemes = l.lexemes ++ more) (hvalid : ∀ t ∈ e.lexemes, t.isValid = true) :
    e.text.head? = l.text.head? := by
  obtain ⟨t, ts, hts⟩ := List.exists_cons_of_ne_nil (lexemes_ne_nil hl)
  have ht : t.isValid = true := hvalid t (by rw [h, hts]; exact List.mem_cons_self)
  rw [text, text, h, hts, List.cons_append, head_flatMap_text ht, head_flatMap_text ht]

/-- The first token of an operator before its operand is no opening parenthesis. -/
theorem prefix_not_open {ops : List Lexeme} (h : prefixLevel? ops ≠ none)
    (hvalid : ∀ t ∈ ops, t.isValid = true) :
    ∃ t more, ops = t :: more ∧ t.text.head? ≠ some '(' := by
  match ops, h, hvalid with
  | [], h, _ => exact absurd rfl h
  | op :: more, h, hvalid =>
    refine ⟨op, more, rfl, ?_⟩
    have hop := hvalid op List.mem_cons_self
    match more, h with
    | [], h =>
      rw [prefixLevel?] at h
      split at h
      · rename_i hmark
        rcases (Bool.or_eq_true _ _).mp hmark with hmark | hmark
        · exact Lexeme.not_open_of_isMark hop hmark (by decide)
        · exact Lexeme.not_open_of_isMark hop hmark (by decide)
      split at h
      · rename_i hword
        exact Lexeme.not_open_of_word hop (Lexeme.kind_of_isWord hword)
      split at h
      · rename_i hmark
        obtain ⟨mark, hmem, hmark⟩ := List.any_eq_true.mp hmark
        have hmarks : ∀ mark ∈ ["+", "-", "~", "!"], mark.toList.head? ≠ some '(' := by decide
        exact Lexeme.not_open_of_isMark hop hmark (hmarks mark hmem)
      split at h
      · rename_i hword
        obtain ⟨word, -, hword⟩ := List.any_eq_true.mp hword
        exact Lexeme.not_open_of_word hop (Lexeme.kind_of_isWord hword)
      · exact absurd rfl h
    | [star], h =>
      rw [prefixLevel?] at h
      split at h
      · rename_i hword
        exact Lexeme.not_open_of_word hop
          (Lexeme.kind_of_isWord ((Bool.and_eq_true _ _).mp hword).1)
      · exact absurd rfl h
    | _ :: _ :: _, h => exact absurd rfl h

/-- A function, a class and the target of `new` start with a word. -/
theorem definition_head {ts : List Lexeme} (h : isDefinition ts = true) :
    ∃ t more, ts = t :: more ∧ t.kind = .word := by
  match ts, h with
  | t :: u :: ts, h =>
    refine ⟨t, u :: ts, rfl, ?_⟩
    simp only [isDefinition, Bool.or_eq_true, Bool.and_eq_true] at h
    rcases h with ((h | h) | h) | h
    · exact Lexeme.kind_of_isWord h.1
    · exact Lexeme.kind_of_isWord h.1.1
    · exact Lexeme.kind_of_isWord h.1
    · exact Lexeme.kind_of_isWord h.1.1.1

theorem head_text_of_cons (h : e.lexemes = t :: ts)
    (hvalid : ∀ t ∈ e.lexemes, t.isValid = true) :
    t.isValid = true ∧ e.text.head? = t.text.head? := by
  have ht : t.isValid = true := hvalid t (by rw [h]; exact List.mem_cons_self)
  refine ⟨ht, ?_⟩
  rw [text, h, head_flatMap_text ht]

/-- The expression is one group, or a closing parenthesis stands before some of its tokens. -/
def ClosesFirst (e : Expr) : Prop :=
  (∃ opening inner closing, e = group opening inner closing) ∨
    ∃ ts us, e.lexemes = ts ++ us ∧ us ≠ [] ∧ ')' ∈ ts.flatMap Lexeme.text

/-- An expression without a leftmost operand that starts with an opening parenthesis is a group, or
an arrow function with its parameters in parentheses. -/
theorem closesFirst_of_left?_eq_none (h : e.fits = true)
    (hvalid : ∀ t ∈ e.lexemes, t.isValid = true) (hleft : e.left? = none)
    (hhead : e.text.head? = some '(') : e.ClosesFirst := by
  cases e with
  | atom t =>
    obtain ⟨ht, htext⟩ := head_text_of_cons (e := atom t) rfl hvalid
    have hopen := htext.symm.trans hhead
    have hchars := Lexeme.head_of_head_text ht hopen
    rw [fits, Lexeme.isAtom] at h
    rcases Lexeme.kind_of_open ht hopen with hkind | hkind | hkind <;> rw [hkind] at h
    · cases h
    · simp [hchars] at h
    · simp [hchars] at h
  | definition ts =>
    obtain ⟨t, more, rfl, hword⟩ := definition_head h
    obtain ⟨ht, htext⟩ := head_text_of_cons (e := definition (t :: more)) rfl hvalid
    exact absurd (htext.symm.trans hhead) (Lexeme.not_open_of_word ht hword)
  | group opening inner closing => exact .inl ⟨opening, inner, closing, rfl⟩
  | new keyword callee args =>
    simp only [fits, Bool.and_eq_true] at h
    obtain ⟨ht, htext⟩ := head_text_of_cons (e := new keyword callee args) rfl hvalid
    exact absurd (htext.symm.trans hhead)
      (Lexeme.not_open_of_word ht (Lexeme.kind_of_isWord h.1.1.1))
  | before ops operand =>
    have hops : prefixLevel? ops ≠ none := by
      intro hnone
      simp [fits, hnone] at h
    obtain ⟨t, more, rfl, hopen⟩ := prefix_not_open hops
      fun t ht => hvalid t (List.mem_append_left _ ht)
    obtain ⟨-, htext⟩ := head_text_of_cons (e := before (t :: more) operand) rfl hvalid
    exact absurd (htext.symm.trans hhead) hopen
  | arrow head sign body =>
    simp only [fits, Bool.and_eq_true] at h
    match head, h, hvalid, hhead with
    | [t], h, hvalid, hhead =>
      obtain ⟨ht, htext⟩ := head_text_of_cons (e := arrow [t] sign body) rfl hvalid
      rcases (Bool.or_eq_true _ _).mp h.1.1.1 with hname | hgroup
      · exact absurd (htext.symm.trans hhead) (Lexeme.not_open_of_word ht (beq_iff_eq.mp hname))
      · refine .inr ⟨[t], sign :: body.lexemes, rfl, List.cons_ne_nil _ _, ?_⟩
        rw [List.flatMap_singleton]
        exact Lexeme.closing_mem ht hgroup
    | [keyword, t], h, hvalid, hhead =>
      obtain ⟨ht, htext⟩ := head_text_of_cons (e := arrow [keyword, t] sign body) rfl hvalid
      have hword := ((Bool.and_eq_true _ _).mp h.1.1.1).1
      exact absurd (htext.symm.trans hhead)
        (Lexeme.not_open_of_word ht (Lexeme.kind_of_isWord hword))
  | suffix | chain | after | between | conditional => cases hleft

/-- A leftmost operand is an expression, and it starts as the whole does. -/
theorem left?_open {l : Expr} {more : List Lexeme} (h : e.fits = true)
    (hvalid : ∀ t ∈ e.lexemes, t.isValid = true) (hhead : e.text.head? = some '(')
    (hleft : e.left? = some (l, more)) :
    l.fits = true ∧ (∀ t ∈ l.lexemes, t.isValid = true) ∧ l.text.head? = some '(' := by
  obtain ⟨hfits, happend, -⟩ := left?_eq_some h hleft
  refine ⟨hfits, fun t ht => hvalid t ?_, ?_⟩
  · rw [happend]
    exact List.mem_append_left _ ht
  · exact (head_text_of_append hfits happend hvalid).symm.trans hhead

theorem mem_text_group {opening closing : Lexeme} {inner : Expr}
    (h : (group opening inner closing).fits = true) :
    ')' ∈ (group opening inner closing).text := by
  simp only [fits, Bool.and_eq_true] at h
  refine List.mem_flatMap.mpr ⟨closing, by simp [lexemes], List.mem_append_right _ ?_⟩
  rw [(Lexeme.isMark_iff.mp h.1.2).2]
  exact List.mem_singleton_self _

/-- **An expression that starts with an opening parenthesis** is one group, or has the closing
parenthesis before its end. -/
theorem closesFirst (h : e.fits = true) (hvalid : ∀ t ∈ e.lexemes, t.isValid = true)
    (hhead : e.text.head? = some '(') : e.ClosesFirst := by
  induction e with
  | suffix object _ ih | chain object _ ih | after object _ ih | between object _ _ ih _
  | conditional object _ _ _ _ ih _ _ =>
    -- A leftmost operand that is one group closes before the tokens behind it.
    obtain ⟨hfits, hobject, hopen⟩ := left?_open h hvalid hhead rfl
    obtain ⟨-, happend, hmore⟩ := left?_eq_some h rfl
    rcases ih hfits hobject hopen with ⟨opening, inner, closing, rfl⟩ | ⟨ts, us, heq, -, hmem⟩
    · exact .inr ⟨_, _, happend, hmore, mem_text_group hfits⟩
    · refine .inr ⟨ts, us ++ _, ?_, List.append_ne_nil_of_right_ne_nil _ hmore, hmem⟩
      rw [happend, heq, List.append_assoc]
  | atom | definition | group | new | before | arrow =>
    exact closesFirst_of_left?_eq_none h hvalid rfl hhead

end Expr

/-! ## The last token -/

/-- The last token can end an expression: it is no mark, or one of those that do. -/
def CanEnd (ts : List Lexeme) : Prop :=
  ∃ t, ts.getLast? = some t ∧ (t.kind = .mark → ∃ m ∈ endMarks, t.chars = m.toList)

theorem CanEnd.append (ts : List Lexeme) (h : CanEnd us) : CanEnd (ts ++ us) := by
  obtain ⟨t, ht, hend⟩ := h
  exact ⟨t, by rw [List.getLast?_append, ht, Option.some_or], hend⟩

theorem CanEnd.cons (t : Lexeme) (h : CanEnd ts) : CanEnd (t :: ts) := h.append [t]

theorem canEnd_of_ne (h : t.kind ≠ .mark) : CanEnd [t] := ⟨t, rfl, fun hk => absurd hk h⟩

theorem canEnd_of_isMark {m : String} (hm : m ∈ endMarks) (h : t.isMark m = true) : CanEnd [t] :=
  ⟨t, rfl, fun _ => ⟨m, hm, (Lexeme.isMark_iff.mp h).2⟩⟩

theorem canEnd_of_isGroup {firsts : List Char} (h : t.isGroup firsts = true) : CanEnd [t] := by
  refine canEnd_of_ne fun hk => ?_
  rw [Lexeme.isGroup, hk] at h
  cases h

theorem canEnd_of_isName (h : t.isName = true) : CanEnd [t] := by
  refine canEnd_of_ne fun hk => ?_
  rw [Lexeme.isName, hk] at h
  cases h

theorem canEnd_of_isWord {word : String} (h : t.isWord word = true) : CanEnd [t] :=
  canEnd_of_isName (beq_iff_eq.mpr (Lexeme.kind_of_isWord h))

theorem canEnd_of_isLink (h : isLink ts = true) : CanEnd ts := by
  match ts, h with
  | [t], h => exact canEnd_of_isGroup h
  | [dot, t], h => exact (canEnd_of_isName ((Bool.and_eq_true _ _).mp h).2).cons dot

theorem canEnd_of_isLinks (h : isLinks ts = true) (hne : ts ≠ []) : CanEnd ts := by
  fun_induction isLinks ts with
  | case1 => exact absurd rfl hne
  | case2 t => exact canEnd_of_isGroup h
  | case3 t u ts ih ih' =>
    simp only [Bool.or_eq_true, Bool.and_eq_true] at h
    rcases h with ⟨⟨-, hname⟩, hlinks⟩ | ⟨-, hlinks⟩
    · by_cases hts : ts = []
      · rw [hts]
        exact (canEnd_of_isName hname).cons t
      · exact ((ih hlinks hts).cons u).cons t
    · exact (ih' hlinks (List.cons_ne_nil _ _)).cons t

theorem canEnd_of_isOptionalLinks (h : isOptionalLinks ts = true) : CanEnd ts := by
  match ts, h with
  | mark :: t :: ts, h =>
    simp only [isOptionalLinks, Bool.or_eq_true, Bool.and_eq_true] at h
    by_cases hts : ts = []
    · rw [hts]
      rcases h.1.2 with hname | hgroup
      · exact (canEnd_of_isName hname).cons mark
      · exact (canEnd_of_isGroup hgroup).cons mark
    · exact ((canEnd_of_isLinks h.2 hts).cons t).cons mark

theorem canEnd_of_isFunctionTail (h : isFunctionTail ts = true) : CanEnd ts := by
  match ts, h with
  | [params, body], h => exact (canEnd_of_isGroup ((Bool.and_eq_true _ _).mp h).2).cons params
  | [name, params, body], h =>
    exact ((canEnd_of_isGroup ((Bool.and_eq_true _ _).mp h).2).cons params).cons name

theorem canEnd_of_isClassTail (h : isClassTail ts = true) : CanEnd ts := by
  fun_induction isClassTail ts with
  | case1 => cases h
  | case2 body => exact canEnd_of_isGroup h
  | case3 t ts hts ih => exact (ih ((Bool.and_eq_true _ _).mp h).2).cons t

theorem canEnd_of_isDefinition (h : isDefinition ts = true) : CanEnd ts := by
  match ts, h with
  | t :: u :: ts, h =>
    simp only [isDefinition, Bool.or_eq_true, Bool.and_eq_true] at h
    rcases h with ((⟨-, h | h⟩ | ⟨-, h | h⟩) | ⟨-, h⟩) | h
    · exact (canEnd_of_isFunctionTail h).cons t
    · exact ((canEnd_of_isFunctionTail h.2).cons u).cons t
    · exact ((canEnd_of_isFunctionTail h).cons u).cons t
    · cases ts with
      | nil => cases h.1
      | cons star ts => exact (((canEnd_of_isFunctionTail h.2).cons star).cons u).cons t
    · exact (canEnd_of_isClassTail h).cons t
    · obtain ⟨⟨-, hlength⟩, htarget⟩ := h
      obtain ⟨target, rfl⟩ := List.length_eq_one_iff.mp (beq_iff_eq.mp hlength)
      exact ((canEnd_of_isWord ((Bool.and_eq_true _ _).mp htarget).1).cons u).cons t

/-- **The last token of an expression** is no mark, a closing parenthesis or a doubled sign. -/
theorem Expr.canEnd_lexemes (h : e.fits = true) : CanEnd e.lexemes := by
  induction e with
  | atom t =>
    refine canEnd_of_ne fun hk => ?_
    rw [Expr.fits, Lexeme.isAtom, hk] at h
    cases h
  | definition ts => exact canEnd_of_isDefinition h
  | group opening inner closing _ =>
    simp only [Expr.fits, Bool.and_eq_true] at h
    exact (canEnd_of_isMark List.mem_cons_self h.1.2).append _
  | suffix object link _ =>
    simp only [Expr.fits, Bool.and_eq_true] at h
    exact (canEnd_of_isLink h.2).append _
  | chain object links _ =>
    simp only [Expr.fits, Bool.and_eq_true] at h
    exact (canEnd_of_isOptionalLinks h.2).append _
  | new keyword callee args ih =>
    simp only [Expr.fits, Bool.and_eq_true] at h
    cases args with
    | none =>
      rw [Expr.lexemes, Option.toList_none, List.append_nil]
      exact (ih h.1.1.2).cons keyword
    | some args => exact (canEnd_of_isGroup h.2).append _
  | before ops operand ih =>
    simp only [Expr.fits, Bool.and_eq_true] at h
    exact (ih h.1).append ops
  | after operand op _ =>
    simp only [Expr.fits, Bool.and_eq_true, Bool.or_eq_true] at h
    rcases h.2 with hop | hop
    · exact (canEnd_of_isMark (by decide) hop).append _
    · exact (canEnd_of_isMark (by decide) hop).append _
  | between left op right _ ih =>
    simp only [Expr.fits, Bool.and_eq_true] at h
    exact ((ih h.1.2).cons op).append _
  | conditional test question yes colon no _ _ ih =>
    simp only [Expr.fits, Bool.and_eq_true] at h
    exact ((ih h.1.1.1.1.1.2).cons colon).append _
  | arrow head sign body ih =>
    simp only [Expr.fits, Bool.and_eq_true] at h
    exact ((ih h.1.2).cons sign).append head

/-- **The last token of an expression goes on** only as a whole number does, into a point. -/
theorem seam_last (h : e.fits = true) (hlast : e.lexemes.getLast? = some t)
    (hfollow : u.CanFollow) (hgap : u.gap.all Filler.isValid = true) :
    Seam t u ↔ ¬(t.isInteger = true ∧ u.gap = [] ∧ u.chars = ['.']) := by
  obtain ⟨c, rest, htext, hpart, hpoint⟩ := Lexeme.head_of_canFollow hfollow hgap
  obtain ⟨s, hs, hend⟩ := Expr.canEnd_lexemes h
  obtain rfl : s = t := Option.some.inj (hs.symm.trans hlast)
  rw [Seam, ← hpoint, htext]
  cases hkind : s.kind with
  | word | regex => simp [Lexeme.joins, Lexeme.isInteger, hkind, hpart]
  | number => simp [Lexeme.joins, hkind, hpart]
  | enclosed | markup => simp [Lexeme.joins, Lexeme.isInteger, hkind]
  | mark =>
    obtain ⟨m, hm, hchars⟩ := hend hkind
    rw [Lexeme.joins_isolated (List.mem_cons_of_mem _ hm) hkind hchars]
    simp [Lexeme.isInteger, hkind]

end

end Trellis.Script
