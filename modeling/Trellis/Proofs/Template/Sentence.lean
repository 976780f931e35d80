import Mathlib.Data.List.Chain
import Trellis.Proofs.Template.Scan

/-!
# The grammar of token streams

The tokens of a template are a sequence of phrases, each a leaf (text, an interpolation, a
comment), a whole opening tag or a closing tag, and at the end perhaps an opening tag without its
end or a closing tag without its name:

    sentence  = phrase* (TAG_OPEN TAG_NAME attr* | TAG_END_OPEN)?
    phrase    = TEXT | INTERPOLATION | COMMENT
              | TAG_OPEN TAG_NAME attr* (TAG_CLOSE | TAG_SELF_CLOSE)
              | TAG_END_OPEN TAG_NAME TAG_CLOSE?
    attr      = ATTR_NAME (ATTR_EQUALS ATTR_VALUE?)?

* `Sentence` is the type of derivations of this grammar, `Sentence.tokens` the stream one derives.
* `Sentence.Sound` is what the grammar leaves out: the name of an opening tag is not empty, no two
  texts are neighbours, and only the last attribute of a tag may lack the value of its `=`.
* `Reached` is the invariant of the lexer: the tokens so far are whole phrases and the start of one
  that fits the mode. `Reads.reached` keeps it in one reading.
* `tokenize_sentence`: every source gives the tokens of a sound sentence.
-/

namespace Trellis.Template

/-! ## Sentences -/

/-- The value and the place of a token, without its kind. -/
structure Lexeme where
  value : String
  span : Span

/-- The token of a given kind. -/
def Lexeme.token (x : Lexeme) (kind : TokenKind) : Token := ⟨kind, x.value, x.span⟩

/-- An attribute as it stands in a tag: a name, a name and an `=`, or a name with its value. -/
inductive AttrPhrase where
  | bare (name : Lexeme)
  | dangling (name equals : Lexeme)
  | valued (name equals value : Lexeme)

namespace AttrPhrase

def tokens : AttrPhrase → List Token
  | .bare name => [name.token .attrName]
  | .dangling name equals => [name.token .attrName, equals.token .attrEquals]
  | .valued name equals value =>
    [name.token .attrName, equals.token .attrEquals, value.token .attrValue]

/-- The attribute has an `=` and no value. -/
def isDangling : AttrPhrase → Bool
  | .dangling .. => true
  | _ => false

end AttrPhrase

/-- The tokens of a tag's attributes. -/
def attrTokens (attrs : List AttrPhrase) : List Token := attrs.flatMap AttrPhrase.tokens

/-- The kinds of tokens between the name of an opening tag and its end. -/
def TokenKind.isAttr : TokenKind → Bool
  | .attrName | .attrEquals | .attrValue => true
  | _ => false

/-- The tokens of an opening tag up to its end. -/
def openingTokens (first name : Lexeme) (attrs : List AttrPhrase) : List Token :=
  first.token .tagOpen :: name.token .tagName :: attrTokens attrs

/-- The kinds of tokens that are nodes by themselves. -/
inductive LeafKind where
  | text
  | interpolation
  | comment
  deriving DecidableEq

def LeafKind.kind : LeafKind → TokenKind
  | .text => .text
  | .interpolation => .interpolation
  | .comment => .comment

/-- A phrase: a leaf, an opening tag with its end, or a closing tag. -/
inductive Phrase where
  | leaf (kind : LeafKind) (x : Lexeme)
  | opening (first name : Lexeme) (attrs : List AttrPhrase) (selfClosing : Bool) (close : Lexeme)
  | closing (first name : Lexeme) (close : Option Lexeme)

namespace Phrase

/-- The kind of the token that ends an opening tag. -/
def closeKind (selfClosing : Bool) : TokenKind := if selfClosing then .tagSelfClose else .tagClose

def tokens : Phrase → List Token
  | .leaf kind x => [x.token kind.kind]
  | .opening first name attrs selfClosing close =>
    openingTokens first name attrs ++ [close.token (closeKind selfClosing)]
  | .closing first name close =>
    first.token .tagEndOpen :: name.token .tagName :: (close.map (·.token .tagClose)).toList

/-- The phrase is a stretch of text. -/
def isText : Phrase → Bool
  | .leaf .text _ => true
  | _ => false

end Phrase

/-- What a source that ends inside of a tag leaves. -/
inductive Ending where
  | whole
  | opening (first name : Lexeme) (attrs : List AttrPhrase)
  | closing (first : Lexeme)

def Ending.tokens : Ending → List Token
  | .whole => []
  | .opening first name attrs => openingTokens first name attrs
  | .closing first => [first.token .tagEndOpen]

/-- A derivation of a token stream. -/
structure Sentence where
  phrases : List Phrase
  ending : Ending

/-- The tokens of a list of phrases. -/
def phraseTokens (ps : List Phrase) : List Token := ps.flatMap Phrase.tokens

def Sentence.tokens (s : Sentence) : List Token := phraseTokens s.phrases ++ s.ending.tokens

/-! ## Sound sentences -/

/-- Only the last attribute may be dangling. -/
def DanglingLast (attrs : List AttrPhrase) : Prop := ∀ a ∈ attrs.dropLast, a.isDangling = false

/-- An opening tag as the lexer reads it. -/
structure SoundTag (name : Lexeme) (attrs : List AttrPhrase) : Prop where
  name_ne : name.value ≠ ""
  dangling_last : DanglingLast attrs

def Phrase.Sound : Phrase → Prop
  | .opening _ name attrs _ _ => SoundTag name attrs
  | _ => True

def Ending.Sound : Ending → Prop
  | .opening _ name attrs => SoundTag name attrs
  | _ => True

/-- The phrases are sound and no two texts are neighbours. -/
structure SoundPhrases (ps : List Phrase) : Prop where
  sound : ∀ p ∈ ps, p.Sound
  apart : ps.IsChain fun p q => ¬ (p.isText = true ∧ q.isText = true)

/-- A sentence as the lexer reads it. -/
structure Sentence.Sound (s : Sentence) : Prop where
  phrases : SoundPhrases s.phrases
  ending : s.ending.Sound

theorem soundPhrases_nil : SoundPhrases [] := ⟨fun _ h => absurd h List.not_mem_nil, .nil⟩

/-- One more phrase, which is no text after a text. -/
theorem SoundPhrases.snoc {ps : List Phrase} (h : SoundPhrases ps) (p : Phrase) (hp : p.Sound)
    (hapart : ∀ q, ps.getLast? = some q → q.isText = true → p.isText = false) :
    SoundPhrases (ps ++ [p]) := by
  constructor
  · intro q hq
    rcases List.mem_append.mp hq with hq | hq
    · exact h.sound q hq
    · rw [List.mem_singleton.mp hq]
      exact hp
  · refine h.apart.append (.singleton p) fun q hq r hr => ?_
    obtain rfl : p = r := by simpa using hr
    rintro ⟨hqt, hrt⟩
    rw [hapart q hq hqt] at hrt
    exact absurd hrt Bool.false_ne_true

theorem danglingLast_append {attrs last : List AttrPhrase}
    (h : ∀ a ∈ attrs, a.isDangling = false) (hlast : last.length ≤ 1) :
    DanglingLast (attrs ++ last) := by
  intro a ha
  match last, hlast with
  | [], _ =>
    rw [List.append_nil] at ha
    exact h a (List.dropLast_subset attrs ha)
  | [b], _ =>
    rw [List.dropLast_concat] at ha
    exact h a ha

@[simp] theorem phraseTokens_nil : phraseTokens [] = [] := rfl

@[simp] theorem phraseTokens_cons (p : Phrase) (ps : List Phrase) :
    phraseTokens (p :: ps) = p.tokens ++ phraseTokens ps := rfl

theorem phraseTokens_append (ps qs : List Phrase) :
    phraseTokens (ps ++ qs) = phraseTokens ps ++ phraseTokens qs :=
  List.flatMap_append

theorem phraseTokens_snoc (ps : List Phrase) (p : Phrase) :
    phraseTokens (ps ++ [p]) = phraseTokens ps ++ p.tokens := by
  rw [phraseTokens_append, phraseTokens_cons, phraseTokens_nil, List.append_nil]

@[simp] theorem attrTokens_nil : attrTokens [] = [] := rfl

@[simp] theorem attrTokens_cons (a : AttrPhrase) (attrs : List AttrPhrase) :
    attrTokens (a :: attrs) = a.tokens ++ attrTokens attrs := rfl

theorem isAttr_of_mem_attrTokens {attrs : List AttrPhrase} {t : Token}
    (h : t ∈ attrTokens attrs) : t.kind.isAttr = true := by
  obtain ⟨a, -, ht⟩ := List.mem_flatMap.mp h
  cases a <;> simp only [AttrPhrase.tokens, List.mem_cons, List.not_mem_nil, or_false] at ht
  · rw [ht]
    rfl
  · rcases ht with rfl | rfl <;> rfl
  · rcases ht with rfl | rfl | rfl <;> rfl

theorem openingTokens_snoc (first name : Lexeme) (attrs : List AttrPhrase) (a : AttrPhrase) :
    openingTokens first name (attrs ++ [a]) = openingTokens first name attrs ++ a.tokens := by
  simp [openingTokens, attrTokens]

/-! ## The invariant of the lexer -/

open Lexer

/-- Whole phrases. After a text the source ends or a construct opens. -/
structure Whole (acc : List Token) (r : List Char) (ps : List Phrase) : Prop where
  tokens : acc = phraseTokens ps
  sound : SoundPhrases ps
  after_text : ∀ p, ps.getLast? = some p → p.isText = true → r = [] ∨ (opening? r).isSome = true

/-- Whole phrases, and then the mark that starts a tag. -/
def Marked (acc : List Token) (kind : TokenKind) : Prop :=
  ∃ ps first, acc = phraseTokens ps ++ [Lexeme.token first kind] ∧ SoundPhrases ps

/-- Whole phrases, and then an opening tag whose attributes end in `last`; those before are not
dangling. -/
inductive InTag (acc : List Token) (last : List AttrPhrase) : Prop
  | mk (ps : List Phrase) (first name : Lexeme) (attrs : List AttrPhrase)
      (hacc : acc = phraseTokens ps ++ openingTokens first name (attrs ++ last))
      (hps : SoundPhrases ps) (hname : name.value ≠ "")
      (hattrs : ∀ a ∈ attrs, a.isDangling = false)

/-- An opening tag whose last attribute awaits its value. -/
def Awaiting (acc : List Token) : Prop := ∃ attr equals, InTag acc [.dangling attr equals]

/-- **The tokens so far, by the mode the lexer is in**: whole phrases, and the start of a phrase
that the mode goes on with. An attribute is left without its value only where the tag ends. -/
def Reached (acc : List Token) : Mode → List Char → Prop
  | .data, r => ∃ ps, Whole acc r ps
  | .tagName, r => Marked acc .tagOpen ∧ ∃ c, r.head? = some c ∧ Text.isLetter c = true
  | .beforeAttrName, r => InTag acc [] ∨ Awaiting acc ∧ EndsTag r
  | .attrName, _ => InTag acc []
  | .afterAttrName, _ => ∃ attr, InTag acc [.bare attr]
  | .beforeAttrValue, _ => Awaiting acc
  | .quotedValue _, _ => Awaiting acc
  | .unquotedValue, _ => Awaiting acc
  | .endTagName, _ => Marked acc .tagEndOpen

/-! ### Whole phrases -/

/-- Whole phrases and one more that is no text. -/
theorem whole_snoc {ps : List Phrase} (hps : SoundPhrases ps) {p : Phrase} (hp : p.Sound)
    (htext : p.isText = false) (r : List Char) :
    ∃ ps', Whole (phraseTokens ps ++ p.tokens) r ps' := by
  refine ⟨ps ++ [p], (phraseTokens_snoc ps p).symm, hps.snoc p hp fun _ _ _ => htext,
    fun q hq ht => ?_⟩
  rw [List.getLast?_concat] at hq
  cases hq
  rw [htext] at ht
  exact absurd ht Bool.false_ne_true

/-- A text is read only where nothing opens, so no text stands before it. -/
theorem Whole.text {acc : List Token} {cs r : List Char} {ps : List Phrase} (h : Whole acc cs ps)
    (x : Lexeme) (hcs : cs ≠ []) (hnone : opening? cs = none)
    (hr : r = [] ∨ (opening? r).isSome = true) :
    Whole (acc ++ [x.token .text]) r (ps ++ [.leaf .text x]) := by
  refine ⟨by rw [h.tokens, phraseTokens_snoc]; rfl,
    h.sound.snoc (.leaf .text x) trivial fun p hp ht => ?_, fun _ _ _ => hr⟩
  rcases h.after_text p hp ht with hnil | hsome
  · exact absurd hnil hcs
  · rw [hnone] at hsome
    exact absurd hsome Bool.false_ne_true

/-- A phrase that is no text may follow any whole phrases. -/
theorem Whole.phrase {acc : List Token} {cs : List Char} {ps : List Phrase} (h : Whole acc cs ps)
    {p : Phrase} (hp : p.Sound) (htext : p.isText = false) (r : List Char) :
    ∃ ps', Whole (acc ++ p.tokens) r ps' := by
  rw [h.tokens]
  exact whole_snoc h.sound hp htext r

/-- The mark of a tag after whole phrases. -/
theorem Whole.mark {acc : List Token} {r : List Char} {ps : List Phrase} (h : Whole acc r ps)
    (x : Lexeme) (kind : TokenKind) : Marked (acc ++ [x.token kind]) kind :=
  ⟨ps, x, by rw [h.tokens], h.sound⟩

/-- A closing tag after its mark. -/
theorem Marked.endTag {acc : List Token} (h : Marked acc .tagEndOpen) (name : Lexeme)
    (close : Option Lexeme) (r : List Char) :
    ∃ ps, Whole (acc ++ name.token .tagName :: (close.map (·.token .tagClose)).toList) r ps := by
  obtain ⟨ps, first, rfl, hps⟩ := h
  rw [List.append_assoc]
  exact whole_snoc hps (p := .closing first name close) trivial rfl r

/-! ### Opening tags -/

/-- The name of an opening tag after its mark. -/
theorem Marked.name {acc : List Token} (h : Marked acc .tagOpen) (name : Lexeme)
    (hname : name.value ≠ "") : InTag (acc ++ [name.token .tagName]) [] := by
  obtain ⟨ps, first, rfl, hps⟩ := h
  exact ⟨ps, first, name, [], by rw [List.append_assoc]; rfl, hps, hname, by simp⟩

/-- One more attribute. -/
theorem InTag.snoc {acc : List Token} (h : InTag acc []) (a : AttrPhrase) :
    InTag (acc ++ a.tokens) [a] := by
  obtain ⟨ps, first, name, attrs, rfl, hps, hname, hattrs⟩ := h
  refine ⟨ps, first, name, attrs, ?_, hps, hname, hattrs⟩
  rw [List.append_nil, openingTokens_snoc, List.append_assoc]

/-- An attribute that is not dangling may stand before others. -/
theorem InTag.shift {acc : List Token} {a : AttrPhrase} (h : InTag acc [a])
    (ha : a.isDangling = false) : InTag acc [] := by
  obtain ⟨ps, first, name, attrs, rfl, hps, hname, hattrs⟩ := h
  refine ⟨ps, first, name, attrs ++ [a], by rw [List.append_nil], hps, hname, fun b hb => ?_⟩
  rcases List.mem_append.mp hb with hb | hb
  · exact hattrs b hb
  · rw [List.mem_singleton.mp hb]
    exact ha

/-- The last attribute grows by tokens. -/
theorem InTag.grow {acc ts : List Token} {a b : AttrPhrase} (h : InTag acc [a])
    (hb : b.tokens = a.tokens ++ ts) : InTag (acc ++ ts) [b] := by
  obtain ⟨ps, first, name, attrs, rfl, hps, hname, hattrs⟩ := h
  refine ⟨ps, first, name, attrs, ?_, hps, hname, hattrs⟩
  rw [openingTokens_snoc, openingTokens_snoc, hb]
  simp only [List.append_assoc]

/-- The end of an opening tag makes it a phrase. -/
theorem InTag.close {acc : List Token} {last : List AttrPhrase} (h : InTag acc last)
    (hlast : last.length ≤ 1) (selfClosing : Bool) (x : Lexeme) (r : List Char) :
    ∃ ps, Whole (acc ++ [x.token (Phrase.closeKind selfClosing)]) r ps := by
  obtain ⟨ps, first, name, attrs, rfl, hps, hname, hattrs⟩ := h
  have hsound : SoundTag name (attrs ++ last) := ⟨hname, danglingLast_append hattrs hlast⟩
  rw [List.append_assoc]
  exact whole_snoc hps (p := .opening first name (attrs ++ last) selfClosing x) hsound rfl r

/-- A value completes the attribute that awaits it. -/
theorem Awaiting.value {acc : List Token} (h : Awaiting acc) (x : Lexeme) :
    InTag (acc ++ [x.token .attrValue]) [] := by
  obtain ⟨attr, equals, h⟩ := h
  exact (h.grow (b := .valued attr equals x) rfl).shift rfl

theorem reached_close {acc : List Token} {cs : List Char} (h : Reached acc .beforeAttrName cs)
    (selfClosing : Bool) (x : Lexeme) (r : List Char) :
    Reached (acc ++ [x.token (Phrase.closeKind selfClosing)]) .data r := by
  rcases h with h | ⟨⟨attr, equals, h⟩, -⟩
  · exact h.close (Nat.zero_le 1) selfClosing x r
  · exact h.close (Nat.le_refl 1) selfClosing x r

/-- Where the tag does not end at once, no attribute lacks its value. -/
theorem inTag_of_not_endsTag {acc : List Token} {cs : List Char}
    (h : Reached acc .beforeAttrName cs) (hend : ¬ EndsTag cs) : InTag acc [] := by
  rcases h with h | ⟨-, h⟩
  · exact h
  · exact absurd h hend

theorem reached_modeAfterName {acc : List Token} {attr : Lexeme} (h : InTag acc [.bare attr])
    (r : List Char) : Reached acc (modeAfterName r) r := by
  unfold modeAfterName
  split
  · exact ⟨attr, h⟩
  · exact .inl (h.shift rfl)

/-! ### One reading -/

theorem not_endsTag_of_head {cs : List Char} (hclose : cs.head? ≠ some '>')
    (hslash : cs.head? ≠ some '/') : ¬ EndsTag cs := by
  rintro ⟨r, rfl | rfl⟩
  · exact hclose rfl
  · exact hslash rfl

theorem not_endsTag_spaces {sp r : List Char} (hsp : AllOf isSpace sp) (hr : ¬ EndsTag r) :
    ¬ EndsTag (sp ++ r) := by
  cases sp with
  | nil => exact hr
  | cons c sp =>
    have hc := hsp c List.mem_cons_self
    refine not_endsTag_of_head (fun h => ?_) fun h => ?_
    · cases h
      exact absurd hc (by decide)
    · cases h
      exact absurd hc (by decide)

theorem not_endsTag_slash {r : List Char} (hr : r.head? ≠ some '>') : ¬ EndsTag ('/' :: r) := by
  rintro ⟨r', h | h⟩
  · cases h
  · cases h
    exact hr rfl

theorem inTagName_of_isLetter {c : Char} (hc : Text.isLetter c = true) : inTagName c = true := by
  by_contra h
  simp only [inTagName, isSpace, Bool.not_eq_true', Bool.not_eq_false, Bool.or_eq_true,
    beq_iff_eq] at h
  rcases h with ((((rfl | rfl) | rfl) | rfl) | rfl) | rfl <;> exact absurd hc (by decide)

/-- The name that starts with a letter is not empty. -/
theorem name_ne_nil {name r : List Char} {c : Char} (hr : StopsAt inTagName r)
    (hhead : (name ++ r).head? = some c) (hc : Text.isLetter c = true) : name ≠ [] := by
  rintro rfl
  have hstop := hr c hhead
  rw [inTagName_of_isLetter hc] at hstop
  exact absurd hstop (by simp)

theorem reached_silent {acc : List Token} {m : Mode} {r : List Char} {place : Cursor}
    {ps : List Lexer.Piece} (hsilent : layout place ps = []) (h : Reached acc m r) :
    Reached (acc ++ layout place ps) m r := by
  rw [hsilent, List.append_nil]
  exact h

/-- **One reading keeps the invariant.** -/
theorem Lexer.Reads.reached {acc : List Token} {m m' : Mode} {cs r : List Char}
    {ps : List Lexer.Piece} (hread : Reads m cs ps m' r) (hcs : cs ≠ []) (h : Reached acc m cs)
    (place : Cursor) : Reached (acc ++ layout place ps) m' r := by
  cases hread with
  | text hnone hcut =>
    obtain ⟨ps, h⟩ := h
    exact ⟨_, h.text ⟨_, _⟩ hcs hnone (cutText_eq hcut).2⟩
  | interpolation hcut =>
    obtain ⟨ps, h⟩ := h
    exact h.phrase (p := .leaf .interpolation ⟨_, _⟩) trivial rfl r
  | comment hcut =>
    obtain ⟨ps, h⟩ := h
    exact h.phrase (p := .leaf .comment ⟨_, _⟩) trivial rfl r
  | endTagOpen =>
    obtain ⟨ps, h⟩ := h
    exact h.mark ⟨_, _⟩ .tagEndOpen
  | tagOpen hc =>
    obtain ⟨ps, h⟩ := h
    exact ⟨h.mark ⟨_, _⟩ .tagOpen, _, rfl, hc⟩
  | tagName hname hr =>
    obtain ⟨h, c, hhead, hc⟩ := h
    have hne := name_ne_nil hr hhead hc
    exact .inl (h.name ⟨_, _⟩ fun heq => hne (String.ofList_injective heq))
  | tagUnclosed hsp =>
    have hend : ¬ EndsTag cs := by
      simpa using not_endsTag_spaces (r := []) hsp (by simp [EndsTag])
    exact reached_silent rfl (.inl (inTag_of_not_endsTag h hend))
  | tagClose hsp => exact reached_close h false ⟨_, _⟩ r
  | tagSelfClose hsp => exact reached_close h true ⟨_, _⟩ r
  | straySlash hsp hr =>
    have hend := not_endsTag_spaces hsp (not_endsTag_slash hr)
    exact reached_silent rfl (.inl (inTag_of_not_endsTag h hend))
  | @attrStart sp c r hsp hc hclose hslash =>
    have hhead : ¬ EndsTag (c :: r) :=
      not_endsTag_of_head (by simpa using hclose) (by simpa using hslash)
    exact reached_silent (m := .attrName) rfl
      (inTag_of_not_endsTag h (not_endsTag_spaces hsp hhead))
  | attrNameEquals hcut => exact ⟨_, _, h.snoc (.dangling ⟨_, _⟩ ⟨_, _⟩)⟩
  | attrName hcut hr => exact reached_modeAfterName (h.snoc (.bare ⟨_, _⟩)) r
  | lateEquals hsp =>
    obtain ⟨attr, h⟩ := h
    exact ⟨attr, _, h.grow (b := .dangling attr ⟨_, _⟩) rfl⟩
  | noEquals hsp hstop hr =>
    obtain ⟨attr, h⟩ := h
    exact reached_silent rfl (.inl (h.shift rfl))
  | valueMissing hsp => exact reached_silent (m := .beforeAttrValue) rfl h
  | noValue hsp hr => exact reached_silent rfl (.inr ⟨h, hr⟩)
  | openQuote hsp hq => exact reached_silent (m := .quotedValue _) rfl h
  | unquoted hsp hc hq hend => exact reached_silent (m := .unquotedValue) rfl h
  | quotedValue hv => exact .inl (h.value ⟨_, _⟩)
  | quotedUnclosed hv => exact .inl (h.value ⟨_, _⟩)
  | unquotedValue hcut => exact .inl (h.value ⟨_, _⟩)
  | endTagClosed hsp hhead hname hsp' => exact h.endTag ⟨_, _⟩ (some ⟨_, _⟩) r
  | endTagUnclosed hsp hhead hname hstop hsp' hr hclose => exact h.endTag ⟨_, _⟩ none r

/-! ### Whole runs -/

/-- The invariant holds along every scan. -/
theorem Lexer.Scan.reached {source r : List Char} {ps : List Lexer.Piece} {m : Mode}
    (h : Scan source ps m r) : Reached (layout {} ps) m r := by
  induction h with
  | start => exact ⟨[], rfl, soundPhrases_nil, fun p hp => by simp at hp⟩
  | read h hcs hread ih =>
    rw [layout_append]
    exact hread.reached hcs ih _

theorem InTag.sentence {acc : List Token} {last : List AttrPhrase} (h : InTag acc last)
    (hlast : last.length ≤ 1) : ∃ s : Sentence, acc = s.tokens ∧ s.Sound := by
  obtain ⟨ps, first, name, attrs, hacc, hps, hname, hattrs⟩ := h
  exact ⟨⟨ps, .opening first name (attrs ++ last)⟩, hacc, hps, hname,
    danglingLast_append hattrs hlast⟩

/-- Where nothing is left, the tokens so far are a sentence. -/
theorem Reached.sentence {acc : List Token} {m : Mode} (h : Reached acc m []) :
    ∃ s : Sentence, acc = s.tokens ∧ s.Sound := by
  have awaiting : Awaiting acc → ∃ s : Sentence, acc = s.tokens ∧ s.Sound := by
    rintro ⟨attr, equals, h⟩
    exact h.sentence (Nat.le_refl 1)
  cases m with
  | data =>
    obtain ⟨ps, h⟩ := h
    refine ⟨⟨ps, .whole⟩, ?_, h.sound, trivial⟩
    rw [h.tokens]
    exact (List.append_nil _).symm
  | tagName =>
    obtain ⟨-, c, hc, -⟩ := h
    exact absurd hc (by simp)
  | beforeAttrName =>
    rcases h with h | ⟨h, -⟩
    · exact h.sentence (Nat.zero_le 1)
    · exact awaiting h
  | attrName => exact InTag.sentence h (Nat.zero_le 1)
  | afterAttrName =>
    obtain ⟨attr, h⟩ := h
    exact h.sentence (Nat.le_refl 1)
  | beforeAttrValue => exact awaiting h
  | quotedValue q => exact awaiting h
  | unquotedValue => exact awaiting h
  | endTagName =>
    obtain ⟨ps, first, hacc, hps⟩ := h
    exact ⟨⟨ps, .closing first⟩, hacc, hps, trivial⟩

/-- **Every source gives the tokens of a sound sentence.** -/
theorem tokenize_sentence (source : String) :
    ∃ s : Sentence, (tokenize source).tokens = s.tokens ∧ s.Sound := by
  obtain ⟨ps, m, hscan, heq⟩ := tokenize_scan source
  rw [heq]
  exact hscan.reached.sentence

end Trellis.Template
