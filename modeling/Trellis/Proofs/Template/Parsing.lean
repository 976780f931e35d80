import Trellis.Proofs.Template.Nesting

/-!
# The parser on sentences

The recursive parser against the stack machine of `Trellis.Proofs.Template.Nesting`.

* `Sentence.faults` are the errors of a sentence: one for each attribute that lacks the value of
  its `=`, in source order, and one for an opening tag that the source ends in.
* `OnTrack n p total errors` ties a nest to a parser at the same place: the machine reads what is
  ahead into `total`, and the errors recorded and those ahead are `errors`. A node of the parser
  keeps it (`OnTrack.node`), and so do the children of an element (`OnTrack.children`), whose
  closing tag may belong to an element further out.
* `parseDocument_sentence`: on the tokens of a sentence the parser gives the document that the
  machine assembles, and the faults of the sentence.
-/

namespace Trellis.Template

open Lexer (AllOf StopsAt stopsAt_nil stopsAt_cons)

/-! ## Faults -/

/-- The error of an attribute that lacks its value. -/
def AttrPhrase.faults : AttrPhrase → List ParseError
  | .bare _ => []
  | .dangling name _ => [⟨.missingValue name.value, name.span⟩]
  | .valued .. => []

/-- The errors of a tag's attributes. -/
def attrFaults (attrs : List AttrPhrase) : List ParseError := attrs.flatMap AttrPhrase.faults

/-- The attributes of the opening tag, if the phrase is one. -/
def Phrase.attrs : Phrase → List AttrPhrase
  | .leaf .. => []
  | .opening _ _ attrs _ _ => attrs
  | .closing .. => []

/-- The attributes of the opening tag, if the source ends in one. -/
def Ending.attrs : Ending → List AttrPhrase
  | .whole => []
  | .opening _ _ attrs => attrs
  | .closing _ => []

/-- The error of an opening tag that the source ends in. -/
def Ending.unclosed : Ending → List ParseError
  | .whole => []
  | .opening _ name _ => [⟨.unclosedTag name.value, name.span⟩]
  | .closing _ => []

namespace Sentence

/-- The attributes of each tag, in source order. -/
def tags (s : Sentence) : List (List AttrPhrase) := s.phrases.map Phrase.attrs ++ [s.ending.attrs]

/-- The errors of attributes, in source order. -/
def missingValues (s : Sentence) : List ParseError := s.tags.flatMap attrFaults

/-- The errors of a sentence. -/
def faults (s : Sentence) : List ParseError := s.missingValues ++ s.ending.unclosed

theorem faults_cons (p : Phrase) (ps : List Phrase) (e : Ending) :
    (⟨p :: ps, e⟩ : Sentence).faults = attrFaults p.attrs ++ (⟨ps, e⟩ : Sentence).faults := by
  simp [faults, missingValues, tags]

theorem tokens_cons (p : Phrase) (ps : List Phrase) (e : Ending) :
    (⟨p :: ps, e⟩ : Sentence).tokens = p.tokens ++ (⟨ps, e⟩ : Sentence).tokens := by
  simp [tokens]

/-- No phrase starts with the end of a tag or an attribute. -/
theorem head_tokens (s : Sentence) {t : Token} (h : s.tokens.head? = some t) :
    Parser.endsTag t = false ∧ t.kind.isAttr = false := by
  obtain ⟨ps, ending⟩ := s
  cases ps with
  | nil => cases ending <;> cases h <;> exact ⟨rfl, rfl⟩
  | cons p ps =>
    rw [tokens_cons] at h
    cases p with
    | leaf kind x => cases h; cases kind <;> exact ⟨rfl, rfl⟩
    | opening first name attrs selfClosing close => cases h; exact ⟨rfl, rfl⟩
    | closing first name close => cases h; exact ⟨rfl, rfl⟩

/-- The empty sentence has no faults. -/
theorem faults_of_nil (s : Sentence) (h : s.tokens = []) : s.faults = [] := by
  obtain ⟨ps, ending⟩ := s
  cases ps with
  | nil =>
    cases ending with
    | whole => rfl
    | opening first name attrs => cases h
    | closing first => cases h
  | cons p ps =>
    rw [tokens_cons] at h
    cases p <;> cases (List.append_eq_nil_iff.mp h).1

end Sentence

/-! ## What stays after a closing tag -/

/-- After a closing tag the rest is a sentence. -/
theorem cutHead_sentence (close : Option Lexeme) (s : Sentence) :
    (cutHead (·.kind == .tagClose) ((close.map (·.token .tagClose)).toList ++ s.tokens)).2 =
      s.tokens := by
  cases close with
  | some x => rfl
  | none =>
    cases hts : s.tokens with
    | nil => rfl
    | cons t ts =>
      have hends := (s.head_tokens (t := t) (by rw [hts]; rfl)).1
      have hkind : (t.kind == .tagClose) = false := by
        simp only [Parser.endsTag, Bool.or_eq_false_iff] at hends
        exact hends.1
      simp [cutHead, hkind]

/-- The phrase is a leaf. -/
def Phrase.isLeaf : Phrase → Bool
  | .leaf .. => true
  | _ => false

/-- The sentence from its first tag on. -/
def Sentence.pastLeaves (s : Sentence) : Sentence := ⟨s.phrases.dropWhile Phrase.isLeaf, s.ending⟩

/-- Leaves are skipped after a stray closing tag, and no other phrase. -/
theorem cutStray_sentence (s : Sentence) : (cutStray s.tokens).2 = s.pastLeaves.tokens := by
  obtain ⟨ps, ending⟩ := s
  induction ps with
  | nil => cases ending <;> rfl
  | cons p ps ih =>
    cases p with
    | leaf kind x =>
      have hleaf : (⟨.leaf kind x :: ps, ending⟩ : Sentence).pastLeaves =
          (⟨ps, ending⟩ : Sentence).pastLeaves := rfl
      rw [hleaf, ← ih, Sentence.tokens_cons]
      cases kind <;> rfl
    | opening first name attrs selfClosing close => rfl
    | closing first name close => rfl

/-- What stays has the same faults. -/
theorem Sentence.faults_pastLeaves (s : Sentence) : s.pastLeaves.faults = s.faults := by
  obtain ⟨ps, ending⟩ := s
  induction ps with
  | nil => rfl
  | cons p ps ih =>
    cases p with
    | leaf kind x =>
      rw [Sentence.faults_cons]
      exact ih
    | opening first name attrs selfClosing close => rfl
    | closing first name close => rfl

/-- The same after the mark and the name of the closing tag. -/
theorem cutStray_closing (name : Lexeme) (close : Option Lexeme) (s : Sentence) :
    ∃ s' : Sentence,
      (cutStray (name.token .tagName :: ((close.map (·.token .tagClose)).toList ++ s.tokens))).2 =
        s'.tokens ∧ s'.faults = s.faults := by
  cases close with
  | some x => exact ⟨s, rfl, rfl⟩
  | none => exact ⟨s.pastLeaves, cutStray_sentence s, s.faults_pastLeaves⟩

/-! ## The parser on the pieces of a tag -/

namespace Parser

variable {passed : List Token} {eof : Token} {errors : List ParseError}

/-- No token both ends and opens a tag. -/
theorem opensTag_of_endsTag {t : Token} (h : endsTag t = true) : opensTag t = false := by
  simp only [endsTag, Bool.or_eq_true, beq_iff_eq] at h
  rcases h with h | h <;> simp [opensTag, h]

/-- Skipping a tag from its mark on passes what `cutStray` cuts. -/
theorem skipTagFrom_eq {t : Token} (ht : endsTag t = false) (ts : List Token) :
    skipTagFrom passed (t :: ts) =
      ((cutStray ts).1.reverse ++ t :: passed, (cutStray ts).2) := by
  induction ts generalizing t passed with
  | nil => simp [skipTagFrom, cutStray, ht]
  | cons u ts ih =>
    rw [skipTagFrom, cutStray, ht]
    by_cases hends : endsTag u = true
    · simp [hends, opensTag_of_endsTag hends, skipTagFrom]
    · rw [Bool.not_eq_true] at hends
      by_cases hopens : opensTag u = true
      · simp [hends, hopens]
      · simp [hends, hopens, ih hends]

theorem passClosingTag_eq (t name : Token) (ts : List Token) :
    (Parser.mk passed (t :: name :: ts) eof errors).passClosingTag =
      ⟨(cutHead (·.kind == .tagClose) ts).1.reverse ++ name :: t :: passed,
        (cutHead (·.kind == .tagClose) ts).2, eof, errors⟩ := by
  cases ts with
  | nil =>
    by_cases h : eof.kind = .tagClose <;> simp [passClosingTag, advance, at?, current, cutHead, h]
  | cons u ts =>
    by_cases h : u.kind = .tagClose <;> simp [passClosingTag, advance, at?, current, cutHead, h]

/-- What follows an attribute is neither an `=` nor a value. -/
theorem current_after_attr (heof : eof.kind = .eof) {ts : List Token}
    (hts : StopsAt (·.kind.isAttr) ts) (attrs : List AttrPhrase) :
    ((attrTokens attrs ++ ts).headD eof).kind ≠ .attrEquals ∧
      ((attrTokens attrs ++ ts).headD eof).kind ≠ .attrValue := by
  cases attrs with
  | cons a attrs => cases a <;> exact ⟨TokenKind.noConfusion, TokenKind.noConfusion⟩
  | nil =>
    cases ts with
    | nil => simp [heof]
    | cons t ts =>
      have hattr : t.kind.isAttr = false := hts t rfl
      change t.kind ≠ _ ∧ t.kind ≠ _
      constructor <;> intro h <;> rw [h] at hattr <;> exact Bool.noConfusion hattr

/-- The value after a name, if any, before a token that is neither an `=` nor a value. -/
theorem parseValue_phrase (passed : List Token) (errors : List ParseError) (a : AttrPhrase)
    {ts : List Token} (hequals : (ts.headD eof).kind ≠ .attrEquals)
    (hvalue : (ts.headD eof).kind ≠ .attrValue) :
    ∃ name own value, a.tokens = name :: own ∧ name.kind = .attrName ∧
      a.toAttribute = .ofRaw name.value value (name.span.upTo (own.getLastD name).span) ∧
      (Parser.mk (name :: passed) (own ++ ts) eof errors).parseValue name =
        (value, ⟨own.reverse ++ name :: passed, ts, eof, errors ++ a.faults⟩) := by
  have hnext : ∀ (passed : List Token) {k : TokenKind}, (ts.headD eof).kind ≠ k →
      ¬ (Parser.mk passed ts eof errors).at? k = true := by
    intro passed k hk h
    exact hk (beq_iff_eq.mp h)
  have hhere : ∀ (passed ts : List Token) (x : Lexeme) (k : TokenKind),
      (Parser.mk passed (x.token k :: ts) eof errors).at? k = true := by
    intro passed ts x k
    exact beq_iff_eq.mpr rfl
  cases a with
  | bare name =>
    refine ⟨name.token .attrName, [], none, rfl, rfl, rfl, ?_⟩
    rw [List.nil_append, parseValue, if_neg (hnext _ hequals), AttrPhrase.faults, List.append_nil]
    rfl
  | dangling name equals =>
    refine ⟨name.token .attrName, [equals.token .attrEquals], none, rfl, rfl, rfl, ?_⟩
    rw [List.singleton_append, parseValue, if_pos (hhere _ _ _ _)]
    exact if_neg (hnext _ hvalue)
  | valued name equals value =>
    refine ⟨name.token .attrName, [equals.token .attrEquals, value.token .attrValue],
      some value.value, rfl, rfl, rfl, ?_⟩
    rw [List.cons_append, parseValue, if_pos (hhere _ _ _ _), AttrPhrase.faults, List.append_nil]
    exact if_pos (hhere _ _ _ _)

theorem spanFrom_passed {own : List Token} {name : Token} {ts : List Token} :
    (Parser.mk (own.reverse ++ name :: passed) ts eof errors).spanFrom name =
      name.span.upTo (own.getLastD name).span := by
  rcases List.eq_nil_or_concat own with rfl | ⟨own, t, rfl⟩ <;> simp [spanFrom, previous?]

/-- One attribute, before a token that is neither an `=` nor a value. -/
theorem parseAttributes_phrase (passed : List Token) (errors : List ParseError) (a : AttrPhrase)
    {ts : List Token} (hequals : (ts.headD eof).kind ≠ .attrEquals)
    (hvalue : (ts.headD eof).kind ≠ .attrValue) :
    (Parser.mk passed (a.tokens ++ ts) eof errors).parseAttributes =
      let later :=
        (Parser.mk (a.tokens.reverse ++ passed) ts eof (errors ++ a.faults)).parseAttributes
      (a.toAttribute :: later.1, later.2) := by
  obtain ⟨name, own, value, htokens, hname, hattr, hparse⟩ :=
    parseValue_phrase passed errors a hequals hvalue
  rw [htokens, List.cons_append, parseAttributes]
  simp only [hname, if_true, advance, hparse, hattr, spanFrom_passed, List.reverse_cons,
    List.append_assoc, List.singleton_append]

/-- The attributes of a tag, up to a token that belongs to none. -/
theorem parseAttributes_eq (heof : eof.kind = .eof) {ts : List Token}
    (hts : StopsAt (·.kind.isAttr) ts) (attrs : List AttrPhrase) :
    (Parser.mk passed (attrTokens attrs ++ ts) eof errors).parseAttributes =
      (attrs.map AttrPhrase.toAttribute,
        ⟨(attrTokens attrs).reverse ++ passed, ts, eof, errors ++ attrFaults attrs⟩) := by
  induction attrs generalizing passed errors with
  | nil =>
    cases ts with
    | nil => simp [parseAttributes, attrFaults]
    | cons t ts =>
      have hattr : t.kind.isAttr = false := hts t rfl
      have hname : t.kind ≠ .attrName := by
        intro h
        rw [h] at hattr
        exact Bool.noConfusion hattr
      simp [parseAttributes, attrFaults, hname]
  | cons a attrs ih =>
    obtain ⟨hequals, hvalue⟩ := current_after_attr heof hts attrs
    rw [attrTokens_cons, List.append_assoc, parseAttributes_phrase _ _ a hequals hvalue, ih]
    simp [attrFaults]

/-! ## Opening tags -/

/-- The opening tag at the current place, up to where its attributes end. -/
theorem parseOpeningTag_eq (passed : List Token) (errors : List ParseError)
    (heof : eof.kind = .eof) (first name : Lexeme) (attrs : List AttrPhrase) {ts : List Token}
    (hts : StopsAt (·.kind.isAttr) ts) :
    (Parser.mk passed (openingTokens first name attrs ++ ts) eof errors).parseOpeningTag =
      let q := Parser.mk ((openingTokens first name attrs).reverse ++ passed) ts eof
        (errors ++ attrFaults attrs)
      let tag := OpeningTag.mk (first.token .tagOpen) (name.token .tagName)
        (attrs.map AttrPhrase.toAttribute)
      if q.at? .tagSelfClose then (some (tag true), q.advance)
      else if q.at? .tagClose then (some (tag false), q.advance)
      else (some (tag false), q.report (.unclosedTag name.value) name.span) := by
  have hname : (Parser.mk passed (openingTokens first name attrs ++ ts) eof errors).advance.expect
      .tagName = (some (name.token .tagName),
        ⟨name.token .tagName :: first.token .tagOpen :: passed, attrTokens attrs ++ ts, eof,
          errors⟩) := rfl
  rw [parseOpeningTag, hname]
  simp only [parseAttributes_eq heof hts]
  simp only [openingTokens, List.reverse_cons, List.append_assoc, List.singleton_append]
  rfl

/-- An opening tag with its end. -/
theorem parseOpeningTag_opening (passed : List Token) (errors : List ParseError)
    (heof : eof.kind = .eof) (first name : Lexeme)
    (attrs : List AttrPhrase) (selfClosing : Bool) (close : Lexeme) (ts : List Token) :
    (Parser.mk passed ((Phrase.opening first name attrs selfClosing close).tokens ++ ts) eof
        errors).parseOpeningTag =
      (some ⟨first.token .tagOpen, name.token .tagName, attrs.map AttrPhrase.toAttribute,
          selfClosing⟩,
        ⟨(Phrase.opening first name attrs selfClosing close).tokens.reverse ++ passed, ts, eof,
          errors ++ attrFaults attrs⟩) := by
  have hstop : StopsAt (·.kind.isAttr) (close.token (Phrase.closeKind selfClosing) :: ts) :=
    stopsAt_cons (by cases selfClosing <;> rfl)
  rw [Phrase.tokens, List.append_assoc, List.singleton_append, List.reverse_append,
    parseOpeningTag_eq _ _ heof _ _ _ hstop]
  cases selfClosing <;> rfl

/-- An opening tag that the source ends in. -/
theorem parseOpeningTag_unended (passed : List Token) (errors : List ParseError)
    (heof : eof.kind = .eof) (first name : Lexeme)
    (attrs : List AttrPhrase) :
    (Parser.mk passed (openingTokens first name attrs) eof errors).parseOpeningTag =
      (some ⟨first.token .tagOpen, name.token .tagName, attrs.map AttrPhrase.toAttribute, false⟩,
        ⟨(openingTokens first name attrs).reverse ++ passed, [], eof,
          errors ++ attrFaults attrs ++ [⟨.unclosedTag name.value, name.span⟩]⟩) := by
  have h := parseOpeningTag_eq passed errors heof first name attrs (stopsAt_nil _)
  rw [List.append_nil] at h
  rw [h]
  simp [at?, current, heof, report]

/-! ## Nodes -/

theorem parseNodeIn_leaf (outer : List String) (kind : LeafKind) (x : Lexeme) (ts : List Token) :
    parseNodeIn outer ⟨passed, x.token kind.kind :: ts, eof, errors⟩ =
      (some (kind.node x), ⟨x.token kind.kind :: passed, ts, eof, errors⟩) := by
  rw [parseNodeIn]
  cases kind <;> rfl

theorem parseNodeIn_opening (outer : List String) {p : Parser} {first : Lexeme} {ts : List Token}
    (h : p.ahead = first.token .tagOpen :: ts) :
    parseNodeIn outer p = parseElementIn outer p (h ▸ List.cons_ne_nil _ _) := by
  obtain ⟨passed, ahead, eof, errors⟩ := p
  cases h
  rw [parseNodeIn]
  rfl

theorem parseNodeIn_stray (outer : List String) (first : Lexeme) (ts : List Token) :
    parseNodeIn outer ⟨passed, first.token .tagEndOpen :: ts, eof, errors⟩ =
      (none, ⟨(cutStray ts).1.reverse ++ first.token .tagEndOpen :: passed, (cutStray ts).2, eof,
        errors⟩) := by
  have hskip : skipTagFrom passed (first.token .tagEndOpen :: ts) = _ := skipTagFrom_eq rfl ts
  rw [parseNodeIn]
  simp only [Lexeme.token, skipTag] at hskip ⊢
  rw [hskip]

/-- The closing tag at the current place, by its tokens. -/
theorem closingName?_eq_some {p : Parser} (heof : p.eof.kind = .eof) {tag : String} :
    p.closingName? = some tag ↔ ∃ first name ts, p.ahead = first :: name :: ts ∧
      first.kind = .tagEndOpen ∧ name.kind = .tagName ∧ name.value = tag := by
  obtain ⟨passed, ahead, eof, errors⟩ := p
  change eof.kind = .eof at heof
  match ahead with
  | [] => simp [closingName?, at?, current, heof]
  | [t] => simp [closingName?, at?, current, peek, heof]
  | t :: u :: ts =>
    simp only [closingName?, at?, current, peek, List.headD_cons, List.getD_cons_succ,
      List.getD_cons_zero, Option.ite_none_right_eq_some, Bool.and_eq_true, beq_iff_eq,
      Option.some.injEq]
    constructor
    · rintro ⟨⟨hfirst, hname⟩, hvalue⟩
      exact ⟨t, u, ts, rfl, hfirst, hname, hvalue⟩
    · rintro ⟨first, name, ts', heq, hfirst, hname, hvalue⟩
      cases heq
      exact ⟨⟨hfirst, hname⟩, hvalue⟩

/-! ## Progress -/

theorem length_skipTag_lt {p : Parser} (h : p.ahead ≠ []) :
    p.skipTag.ahead.length < p.ahead.length := by
  obtain ⟨passed, ahead, eof, errors⟩ := p
  cases ahead with
  | nil => exact absurd rfl h
  | cons t ts =>
    simp only [skipTag, skipTagFrom]
    split
    · exact Nat.lt_succ_self _
    · exact Nat.lt_succ_of_le (length_skipTagFrom_le _ _)

theorem length_passClosingTag_le (p : Parser) :
    p.passClosingTag.ahead.length ≤ p.ahead.length := by
  have htwo := Nat.le_trans (length_advance_le p.advance) (length_advance_le p)
  unfold passClosingTag
  dsimp only
  split
  · exact Nat.le_trans (length_advance_le _) htwo
  · exact htwo

mutual

/-- A node passes a token. -/
theorem length_parseNodeIn_lt (outer : List String) (p : Parser) (h : p.ahead ≠ []) :
    (parseNodeIn outer p).2.ahead.length < p.ahead.length := by
  rw [parseNodeIn]
  split
  · rename_i hnil
    exact absurd hnil h
  · split
    · exact length_advance_lt h
    · exact length_advance_lt h
    · exact length_advance_lt h
    · exact length_parseElementIn_lt outer p h
    · exact length_skipTag_lt h
    · exact length_advance_lt h
termination_by (p.ahead.length, 1)

theorem length_parseElementIn_lt (outer : List String) (p : Parser) (h : p.ahead ≠ []) :
    (parseElementIn outer p h).2.ahead.length < p.ahead.length := by
  have hopen := length_parseOpeningTag_lt h
  rw [parseElementIn]
  dsimp only
  split
  · exact hopen
  · split
    · exact hopen
    · exact Nat.lt_of_le_of_lt (length_parseChildrenIn_le _ _) hopen
termination_by (p.ahead.length, 0)

theorem length_parseChildrenIn_le (inner : List String) (p : Parser) :
    (parseChildrenIn inner p).2.ahead.length ≤ p.ahead.length := by
  rw [parseChildrenIn]
  split
  · exact Nat.le_refl _
  · rename_i hend
    have h : p.ahead ≠ [] := by simpa [isAtEnd] using hend
    split
    · split
      · exact length_passClosingTag_le p
      · split
        · exact Nat.le_refl _
        · exact length_parseChildInto_le inner p h
    · exact length_parseChildInto_le inner p h
termination_by (p.ahead.length, 3)

theorem length_parseChildInto_le (inner : List String) (p : Parser) (h : p.ahead ≠ []) :
    (parseChildInto inner p).2.ahead.length ≤ p.ahead.length := by
  have hnode := length_parseNodeIn_lt inner p h
  rw [parseChildInto]
  dsimp only
  rw [if_pos hnode]
  exact Nat.le_trans (length_parseChildrenIn_le _ _) (Nat.le_of_lt hnode)
termination_by (p.ahead.length, 2)

end
end Parser

/-! ## The parser on the track of the machine -/

namespace Nest

/-- An element that was begun and closed again is appended. -/
theorem begin_add_close {n : Nest} {first : Token} {tag : String} {selfClosing : Bool}
    (h : (selfClosing || isVoid tag) = false) (attributes : List Attribute) (xs : List Node)
    (l l' : Option Token) :
    ((((n.seen l).begin first tag selfClosing attributes).add xs).seen l').close =
      (n.add [.element tag false attributes xs ((n.seen l').spanFrom first)]).seen l' := by
  rw [begin, h]
  exact add_seen n l' _

theorem last_begin (n : Nest) (first : Token) (tag : String) (selfClosing : Bool)
    (attributes : List Attribute) : (n.begin first tag selfClosing attributes).last = n.last := by
  unfold begin
  split
  · exact last_add n _
  · rfl

theorem tags_begin (n : Nest) (first : Token) {tag : String} {selfClosing : Bool}
    (h : (selfClosing || isVoid tag) = false) (attributes : List Attribute) :
    (n.begin first tag selfClosing attributes).tags = tag :: n.tags := by
  rw [begin, h]
  rfl

end Nest

/-- The two ways to say where an element ends agree. -/
theorem spanFrom_seen (n : Nest) (p : Parser) (first : Token) :
    (n.seen p.previous?).spanFrom first = p.spanFrom first := by
  rw [Nest.spanFrom, Parser.spanFrom, Nest.last_seen]
  cases p.previous? <;> rfl

/-- The nest moves along with the parser. -/
theorem past_of_last {n : Nest} {passed : List Token} (h : n.last = passed.head?)
    (ts : List Token) : n.past ts = n.seen (ts.reverse ++ passed).head? := by
  rw [Nest.past_eq_seen, h, List.head?_append, List.head?_reverse]

/-- **A nest and a parser at the same place.** The machine reads what is ahead into `total`; the
errors recorded and those ahead are `errors`. -/
structure OnTrack (n : Nest) (p : Parser) (total : Nest) (errors : List ParseError) : Prop where
  eof : p.eof.kind = .eof
  last : n.last = p.previous?
  read : n.read p.ahead = total
  sentence : ∃ s : Sentence, p.ahead = s.tokens ∧ p.errors ++ s.faults = errors

/-- From here on, the parser reads the children of an element as the machine does. -/
def ChildrenOnTrack (p : Parser) : Prop :=
  ∀ (n total : Nest) (errors : List ParseError), n.tags ≠ [] → OnTrack n p total errors →
    let r := Parser.parseChildrenIn n.tags p
    OnTrack ((n.add r.1).seen r.2.previous?).close r.2 total errors

namespace OnTrack

variable {n total : Nest} {p : Parser} {errors : List ParseError}

/-- The element of an opening tag, with its children. -/
theorem element {q : Parser} {tag : Parser.OpeningTag} {first : Lexeme} {ts : List Token}
    (hp : p.ahead = first.token .tagOpen :: ts) (hopen : p.parseOpeningTag = (some tag, q))
    (h : OnTrack ((n.seen q.previous?).begin tag.first tag.name.value tag.selfClosing
      tag.attributes) q total errors) (hchildren : ChildrenOnTrack q) :
    let r := Parser.parseNodeIn n.tags p
    OnTrack ((n.add r.1.toList).seen r.2.previous?) r.2 total errors := by
  rw [Parser.parseNodeIn_opening n.tags hp, Parser.parseElementIn]
  simp only [hopen]
  by_cases hshut : (tag.selfClosing || isVoid tag.name.value) = true
  · rw [Nest.begin, if_pos hshut, spanFrom_seen, Nest.add_seen] at h
    rw [if_pos hshut]
    exact h
  · rw [Bool.not_eq_true] at hshut
    have htags := Nest.tags_begin (n.seen q.previous?) tag.first hshut tag.attributes
    have hinside := hchildren _ total errors (by rw [htags]; exact List.cons_ne_nil _ _) h
    rw [htags, Nest.tags_seen] at hinside
    simp only [Nest.begin_add_close hshut, spanFrom_seen] at hinside
    rw [hshut, if_neg Bool.false_ne_true]
    exact hinside

/-- Past some tokens, with what the machine makes of them. -/
theorem moved (h : OnTrack n p total errors) {f : Nest → Nest} (hf : ∀ n, (f n).last = n.last)
    {ts ahead : List Token} {errs : List ParseError} {s : Sentence}
    (hread : n.read p.ahead = (f (n.past ts)).read ahead) (hahead : ahead = s.tokens)
    (hfaults : errs ++ s.faults = errors) :
    OnTrack (f (n.seen (ts.reverse ++ p.passed).head?))
      ⟨ts.reverse ++ p.passed, ahead, p.eof, errs⟩ total errors := by
  refine ⟨h.eof, ?_, ?_, s, hahead, hfaults⟩
  · rw [hf]
    rfl
  · rw [← h.read, hread, past_of_last h.last]

section Node

variable {passed ts : List Token} {eof : Token} {errs : List ParseError} {s : Sentence}

theorem leaf {kind : LeafKind} {x : Lexeme}
    (h : OnTrack n ⟨passed, x.token kind.kind :: s.tokens, eof, errs⟩ total errors)
    (hfaults : errs ++ s.faults = errors) :
    let r := Parser.parseNodeIn n.tags ⟨passed, x.token kind.kind :: s.tokens, eof, errs⟩
    OnTrack ((n.add r.1.toList).seen r.2.previous?) r.2 total errors := by
  have hmoved := h.moved (f := (·.add [kind.node x])) (fun n => n.last_add _)
    (Nest.read_leaf n kind x s.tokens) rfl hfaults
  rw [Nest.add_seen] at hmoved
  rw [Parser.parseNodeIn_leaf]
  exact hmoved

/-- A closing tag of no open element. -/
theorem stray {first : Lexeme}
    (h : OnTrack n ⟨passed, first.token .tagEndOpen :: ts, eof, errs⟩ total errors)
    (hout : ∀ tag, Parser.closingName? ⟨passed, first.token .tagEndOpen :: ts, eof, errs⟩ =
      some tag → tag ∉ n.tags)
    (hcut : (cutStray ts).2 = s.tokens) (hfaults : errs ++ s.faults = errors) :
    let r := Parser.parseNodeIn n.tags ⟨passed, first.token .tagEndOpen :: ts, eof, errs⟩
    OnTrack ((n.add r.1.toList).seen r.2.previous?) r.2 total errors := by
  have hname : ∀ t, ts.head? = some t → t.kind = .tagName → t.value ∉ n.tags := by
    intro t ht hkind
    obtain ⟨ts, rfl⟩ := List.head?_eq_some_iff.mp ht
    exact hout t.value
      ((Parser.closingName?_eq_some h.eof).mpr ⟨_, t, ts, rfl, rfl, hkind, rfl⟩)
  have hmoved := h.moved (f := id) (fun _ => rfl) (Nest.read_stray hname first) hcut hfaults
  rw [List.reverse_cons, List.append_assoc] at hmoved
  rw [Parser.parseNodeIn_stray]
  change OnTrack ((n.add []).seen _) _ total errors
  rw [Nest.add_nil]
  exact hmoved

end Node

/-- **A node keeps the track**, if the children of shorter streams do. At a closing tag, its
element is not open. -/
theorem node (h : OnTrack n p total errors) (hp : p.ahead ≠ [])
    (hout : ∀ tag, p.closingName? = some tag → tag ∉ n.tags)
    (hchildren : ∀ q : Parser, q.ahead.length < p.ahead.length → ChildrenOnTrack q) :
    let r := Parser.parseNodeIn n.tags p
    OnTrack ((n.add r.1.toList).seen r.2.previous?) r.2 total errors := by
  obtain ⟨passed, ahead, eof, errs⟩ := p
  have heof : eof.kind = .eof := h.eof
  obtain ⟨⟨ps, ending⟩, hahead, hfaults⟩ := h.sentence
  change ahead = _ at hahead
  change errs ++ _ = _ at hfaults
  subst hahead
  cases ps with
  | nil =>
    cases ending with
    | whole => exact absurd rfl hp
    | opening first name attrs =>
      have hopen := Parser.parseOpeningTag_unended passed errs heof first name attrs
      refine element rfl hopen (h.moved (fun n => n.last_begin _ _ _ _)
        (n.read_unended first name attrs) (s := ⟨[], .whole⟩) rfl ?_) (hchildren _ ?_)
      · simpa [Sentence.faults, Sentence.missingValues, Sentence.tags, attrFaults, Ending.attrs,
          Ending.unclosed] using hfaults
      · exact Nat.succ_pos _
    | closing first => exact h.stray (s := ⟨[], .whole⟩) hout rfl hfaults
  | cons ph ps =>
    rw [Sentence.faults_cons] at hfaults
    simp only [Sentence.tokens_cons] at h hp hout hchildren ⊢
    cases ph with
    | leaf kind x => exact h.leaf hfaults
    | opening first name attrs selfClosing close =>
      have hopen := Parser.parseOpeningTag_opening passed errs heof first name attrs selfClosing
        close (Sentence.tokens ⟨ps, ending⟩)
      rw [← List.append_assoc] at hfaults
      refine element rfl hopen (h.moved (fun n => n.last_begin _ _ _ _)
        (n.read_opening first name attrs selfClosing close _) rfl hfaults) (hchildren _ ?_)
      rw [List.length_append]
      exact Nat.lt_add_of_pos_left (Nat.succ_pos _)
    | closing first name close =>
      obtain ⟨s', hcut, hs'⟩ := cutStray_closing name close ⟨ps, ending⟩
      exact h.stray hout hcut (by rw [hs']; exact hfaults)

/-- The tokens of the closing tag at the current place. -/
theorem closing (h : OnTrack n p total errors) {tag : String} (htag : p.closingName? = some tag) :
    ∃ (first name : Lexeme) (ts : List Token) (s : Sentence),
      p.ahead = first.token .tagEndOpen :: name.token .tagName :: ts ∧ name.value = tag ∧
      (cutHead (·.kind == .tagClose) ts).2 = s.tokens ∧ p.errors ++ s.faults = errors := by
  obtain ⟨t, u, ts, hahead, ht, hu, hvalue⟩ := (Parser.closingName?_eq_some h.eof).mp htag
  obtain ⟨⟨ps, ending⟩, hs, hfaults⟩ := h.sentence
  rw [hahead] at hs ⊢
  cases ps with
  | nil =>
    cases ending with
    | whole => cases hs
    | opening first name attrs =>
      cases hs
      cases ht
    | closing first => cases hs
  | cons ph ps =>
    rw [Sentence.tokens_cons] at hs
    rw [Sentence.faults_cons] at hfaults
    cases ph with
    | leaf kind x =>
      obtain ⟨rfl, -⟩ := List.cons.inj hs
      cases kind <;> cases ht
    | opening first name attrs selfClosing close =>
      cases hs
      cases ht
    | closing first name close =>
      cases hs
      exact ⟨first, name, _, ⟨ps, ending⟩, rfl, hvalue, cutHead_sentence close _, hfaults⟩

/-- The closing tag of the innermost open element. -/
theorem close (h : OnTrack n p total errors) {tag : String} {outers : List String}
    (htag : p.closingName? = some tag) (htags : n.tags = tag :: outers) :
    OnTrack (n.seen p.passClosingTag.previous?).close p.passClosingTag total errors := by
  obtain ⟨first, name, ts, s, hahead, rfl, hcut, hfaults⟩ := h.closing htag
  obtain ⟨passed, ahead, eof, errs⟩ := p
  cases hahead
  have hread := Nest.read_closing (htags ▸ List.mem_cons_self) first ts
  rw [Nest.closeInside_self htags] at hread
  have hmoved := h.moved (f := Nest.close) Nest.last_close hread hcut hfaults
  simp only [List.reverse_cons, List.append_assoc, List.singleton_append] at hmoved
  rw [Parser.passClosingTag_eq]
  exact hmoved

/-- The closing tag of an element further out closes the innermost one and stays. -/
theorem closeInner (h : OnTrack n p total errors) {tag outer : String} {outers : List String}
    (htag : p.closingName? = some tag) (htags : n.tags = outer :: outers) (hne : outer ≠ tag)
    (hmem : tag ∈ outers) : OnTrack n.close p total errors := by
  obtain ⟨first, name, ts, s, hahead, rfl, -, -⟩ := h.closing htag
  have hclose : name.value ∈ n.close.tags := by
    rw [Nest.tags_close, htags]
    exact hmem
  have hopen : name.value ∈ n.tags := htags ▸ List.mem_cons_of_mem _ hmem
  refine ⟨h.eof, by rw [Nest.last_close, h.last], ?_, h.sentence⟩
  rw [← h.read, hahead, Nest.read_closing hclose, Nest.read_closing hopen,
    Nest.closeInside_close htags hne]

/-- One node keeps the track, and so do the children after it. -/
theorem childInto (h : OnTrack n p total errors) (htags : n.tags ≠ []) (hp : p.ahead ≠ [])
    (hout : ∀ tag, p.closingName? = some tag → tag ∉ n.tags)
    (hchildren : ∀ q : Parser, q.ahead.length < p.ahead.length → ChildrenOnTrack q) :
    let r := Parser.parseChildInto n.tags p
    OnTrack ((n.add r.1).seen r.2.previous?).close r.2 total errors := by
  have hlt := Parser.length_parseNodeIn_lt n.tags p hp
  have hnode := h.node hp hout hchildren
  have hlater := hchildren _ hlt _ total errors (by simpa using htags) hnode
  rw [Parser.parseChildInto]
  simp only [if_pos hlt]
  simp only [Nest.tags_seen, Nest.tags_add, Nest.add_seen, Nest.add_add, Nest.seen_seen] at hlater
  exact hlater

/-- **The children of an element keep the track**, by induction on the tokens ahead. -/
theorem children (p : Parser) : ChildrenOnTrack p := by
  induction hlen : p.ahead.length using Nat.strong_induction_on generalizing p with
  | _ k ih =>
    intro n total errors hne h
    have hchildren : ∀ q : Parser, q.ahead.length < p.ahead.length → ChildrenOnTrack q :=
      fun q hq => ih _ (hlen ▸ hq) q rfl
    obtain ⟨outer, outers, htags⟩ := List.exists_cons_of_ne_nil hne
    have hhere : OnTrack n.close p total errors →
        OnTrack ((n.add []).seen p.previous?).close p total errors := by
      rw [Nest.add_nil, ← h.last, Nest.seen_last]
      exact id
    rw [Parser.parseChildrenIn, htags, List.head?_cons, List.tail_cons]
    split
    · -- the end of input closes the element
      rename_i hend
      have hnil : p.ahead = [] := by simpa [Parser.isAtEnd] using hend
      refine hhere ⟨h.eof, by rw [Nest.last_close, h.last], ?_, h.sentence⟩
      rw [← h.read, hnil, Nest.read_nil, Nest.read_nil, Nest.closeAll_close htags]
    · rename_i hend
      have hp : p.ahead ≠ [] := by simpa [Parser.isAtEnd] using hend
      rw [← htags]
      split
      · rename_i tag htag
        split
        · -- its own closing tag is passed
          rename_i hhead
          cases hhead
          change OnTrack ((n.add []).seen _).close _ total errors
          rw [Nest.add_nil]
          exact h.close htag htags
        · rename_i hhead
          have hne' : outer ≠ tag := fun heq => hhead (by rw [heq])
          split
          · -- that of an element further out stays, and the parser sees it again there
            rename_i hmem
            exact hhere (h.closeInner htag htags hne' (by simpa using hmem))
          · -- a stray one is a child that gives no node
            rename_i hmem
            refine h.childInto hne hp (fun tag' htag' => ?_) hchildren
            rw [htag] at htag'
            cases htag'
            rw [htags, List.mem_cons, not_or]
            exact ⟨hne'.symm, by simpa using hmem⟩
      · rename_i hclosing
        refine h.childInto hne hp (fun tag htag => ?_) hchildren
        rw [hclosing] at htag
        cases htag

/-- **The nodes of a document keep the track**, by induction on the tokens ahead. -/
theorem nodes (h : OnTrack n p total errors) (htags : n.tags = []) :
    let r := p.parseNodes
    total = (n.add r.1).seen r.2.previous? ∧ r.2.errors = errors := by
  induction hlen : p.ahead.length using Nat.strong_induction_on generalizing n p with
  | _ k ih =>
    rw [Parser.parseNodes]
    split
    · rename_i hend
      have hnil : p.ahead = [] := by simpa [Parser.isAtEnd] using hend
      obtain ⟨s, hs, hfaults⟩ := h.sentence
      have hopened : n.opened = [] := List.map_eq_nil_iff.mp htags
      rw [s.faults_of_nil (hs.symm.trans hnil), List.append_nil] at hfaults
      refine ⟨?_, hfaults⟩
      rw [Nest.add_nil, ← h.last, Nest.seen_last, ← h.read, hnil, Nest.read_nil, Nest.closeAll,
        hopened]
      rfl
    · rename_i hend
      have hp : p.ahead ≠ [] := by simpa [Parser.isAtEnd] using hend
      have hlt := Parser.length_parseNodeIn_lt n.tags p hp
      have hnode := h.node hp (by simp [htags]) fun q _ => children q
      rw [htags] at hlt hnode
      have hlater := ih _ (hlen ▸ hlt) hnode (by simp [htags]) rfl
      simp only [Parser.parseNode, hlt, if_true]
      simp only [Nest.add_seen, Nest.add_add, Nest.seen_seen] at hlater
      exact hlater

end OnTrack

/-- **The parser on the tokens of a sentence**: the document is the one the machine assembles, and
the errors are the faults of the sentence. -/
theorem parseDocument_sentence {t : TokenStream} {s : Sentence} (htokens : t.tokens = s.tokens)
    (heof : t.eof.kind = .eof) :
    (Parser.ofStream t).parseDocument.1 = assemble t ∧
      (Parser.ofStream t).parseDocument.2.errors = s.faults := by
  have h : OnTrack {} (Parser.ofStream t) (Nest.read {} t.tokens) s.faults :=
    ⟨heof, rfl, rfl, s, htokens, rfl⟩
  obtain ⟨htotal, herrors⟩ := h.nodes rfl
  refine ⟨?_, herrors⟩
  change Document.mk _ _ = Document.mk (Nest.read {} t.tokens).roots _
  rw [htotal, spanFrom_seen]
  rfl

/-- **The recursive parser builds the tree of the stack machine**, for every source. -/
theorem parseTemplate_document (source : String) :
    (parseTemplate source).document = assemble (tokenize source) := by
  obtain ⟨s, htokens, -⟩ := tokenize_sentence source
  exact (parseDocument_sentence htokens rfl).1

/-! ## Diagnostics -/

/-- **The errors of a template whose tokens are those of `s`.** -/
structure Diagnosed (s : Sentence) (errors : List ParseError) : Prop where
  /-- The errors are those of attributes, and after them the one of the tag the source ends in. -/
  exact : errors = s.missingValues ++ s.ending.unclosed
  /-- Every attribute that lacks its value has one error. -/
  each : s.missingValues.length = s.tags.flatten.countP AttrPhrase.isDangling
  /-- A tag has at most one. -/
  one_a_tag : ∀ attrs ∈ s.tags, (attrFaults attrs).length ≤ 1
  malformed : ∀ e ∈ s.missingValues, e.flaw.code = .malformedAttribute
  unclosed : ∀ e ∈ s.ending.unclosed, e.flaw.code = .unclosedTag
  ends_in_tag : s.ending.unclosed ≠ [] ↔ ∃ first name attrs, s.ending = .opening first name attrs
  /-- No token is ever missed. -/
  expected : ∀ e ∈ errors, ∀ want got, e.flaw ≠ .expected want got

theorem length_faults (a : AttrPhrase) : a.faults.length = if a.isDangling then 1 else 0 := by
  cases a <;> rfl

theorem length_attrFaults (attrs : List AttrPhrase) :
    (attrFaults attrs).length = attrs.countP AttrPhrase.isDangling := by
  induction attrs with
  | nil => rfl
  | cons a attrs ih =>
    rw [attrFaults, List.flatMap_cons, List.length_append, List.countP_cons, length_faults,
      ← ih, Nat.add_comm]
    rfl

/-- Where only the last attribute may be dangling, at most one is. -/
theorem DanglingLast.length_attrFaults_le {attrs : List AttrPhrase} (h : DanglingLast attrs) :
    (attrFaults attrs).length ≤ 1 := by
  rw [length_attrFaults]
  rcases List.eq_nil_or_concat attrs with rfl | ⟨front, a, rfl⟩
  · exact Nat.zero_le 1
  · rw [DanglingLast, List.concat_eq_append, List.dropLast_concat] at h
    have hfront : front.countP AttrPhrase.isDangling = 0 := by
      rw [List.countP_eq_zero]
      intro b hb
      rw [h b hb]
      exact Bool.false_ne_true
    rw [List.concat_eq_append, List.countP_append, hfront, Nat.zero_add]
    exact List.countP_le_length

/-- In a sound sentence every tag is. -/
theorem Sentence.Sound.danglingLast {s : Sentence} (h : s.Sound) {attrs : List AttrPhrase}
    (hattrs : attrs ∈ s.tags) : DanglingLast attrs := by
  have hnil : DanglingLast [] := fun a ha => absurd ha List.not_mem_nil
  rcases List.mem_append.mp hattrs with hattrs | hattrs
  · obtain ⟨p, hp, rfl⟩ := List.mem_map.mp hattrs
    have hsound := h.phrases.sound p hp
    cases p with
    | leaf kind x => exact hnil
    | opening first name attrs selfClosing close => exact hsound.dangling_last
    | closing first name close => exact hnil
  · rw [List.mem_singleton.mp hattrs]
    obtain ⟨ps, ending⟩ := s
    cases ending with
    | whole => exact hnil
    | opening first name attrs => exact h.ending.dangling_last
    | closing first => exact hnil

theorem Sentence.flaw_of_mem_missingValues {s : Sentence} {e : ParseError}
    (h : e ∈ s.missingValues) : ∃ name, e.flaw = .missingValue name := by
  obtain ⟨attrs, -, he⟩ := List.mem_flatMap.mp h
  obtain ⟨a, -, he⟩ := List.mem_flatMap.mp he
  cases a with
  | bare name => exact absurd he List.not_mem_nil
  | dangling name equals =>
    rw [List.mem_singleton.mp he]
    exact ⟨name.value, rfl⟩
  | valued name equals value => exact absurd he List.not_mem_nil

theorem Ending.flaw_of_mem_unclosed {ending : Ending} {e : ParseError} (h : e ∈ ending.unclosed) :
    ∃ tag, e.flaw = .unclosedTag tag := by
  cases ending with
  | whole => exact absurd h List.not_mem_nil
  | opening first name attrs =>
    rw [List.mem_singleton.mp h]
    exact ⟨name.value, rfl⟩
  | closing first => exact absurd h List.not_mem_nil

/-- The faults of a sound sentence are all its errors. -/
theorem Sentence.Sound.diagnosed {s : Sentence} (h : s.Sound) : Diagnosed s s.faults where
  exact := rfl
  each := by
    rw [missingValues, List.length_flatMap, List.countP_flatten]
    simp only [length_attrFaults]
  one_a_tag attrs hattrs := (h.danglingLast hattrs).length_attrFaults_le
  malformed e he := by
    obtain ⟨name, hflaw⟩ := flaw_of_mem_missingValues he
    rw [hflaw]
    rfl
  unclosed e he := by
    obtain ⟨tag, hflaw⟩ := Ending.flaw_of_mem_unclosed he
    rw [hflaw]
    rfl
  ends_in_tag := by
    cases s.ending <;> simp [Ending.unclosed]
  expected e he want got := by
    rcases List.mem_append.mp he with he | he
    · obtain ⟨name, hflaw⟩ := flaw_of_mem_missingValues he
      rw [hflaw]
      exact Flaw.noConfusion
    · obtain ⟨tag, hflaw⟩ := Ending.flaw_of_mem_unclosed he
      rw [hflaw]
      exact Flaw.noConfusion

/-- **The grammar of token streams and the errors of templates**: every source gives the tokens of
a sound sentence, and the errors of that sentence, in order, are the errors of the template. -/
theorem tokenize_grammar_diagnosed (source : String) :
    ∃ (s : Sentence) (eof : Token), (tokenize source).toList = s.tokens ++ [eof] ∧
      eof.kind = .eof ∧ s.Sound ∧ Diagnosed s (parseTemplate source).errors := by
  obtain ⟨s, htokens, hsound⟩ := tokenize_sentence source
  have herrors : (parseTemplate source).errors = s.faults :=
    (parseDocument_sentence htokens rfl).2
  refine ⟨s, (tokenize source).eof, by rw [TokenStream.toList, htokens], rfl, hsound, ?_⟩
  rw [herrors]
  exact hsound.diagnosed

end Trellis.Template
