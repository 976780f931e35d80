import Mathlib.Data.List.Infix
import Mathlib.Tactic.MkIffOfInductiveProp
import Trellis.Proofs.Template.Parsing
import Trellis.Proofs.Text.Strip

/-!
# The lexer on printed markup

Which trees are told apart by their markup, and how the lexer reads that markup.

* `Document.WellFormed` says of every part of a tree that its characters are those of such a part:
  a text starts no construct, an interpolation does not close itself, and so on. Of neighbours it
  asks little: no two texts, and no brace before an interpolation.
* `Emits m m' cs r T`: from mode `m` the lexer reads `cs` up to the rest `r`, where it is in mode
  `m'`, and the tokens on the way satisfy `T`. Readings compose by `Emits.read` and
  `Emits.append`, whatever the rest is.
* `Spells ps ns`: the phrases `ps` are those of the nodes `ns`, wherever they stand.
* `emits_markupAll`: the lexer reads the markup of well-formed siblings into phrases that spell
  them, and is back in data mode.
-/

namespace Trellis.Template

open Trellis.Text
open Lexer (isSpace isQuote)

/-! ## Well-formed templates -/

/-- A text in which nothing else starts. -/
@[mk_iff]
structure PlainText (cs : List Char) : Prop where
  ne_nil : cs ≠ []
  no_interpolation : ¬ ['\x7b', '\x7b'] <:+: cs
  no_comment : ¬ ['<', '!', '-', '-'] <:+: cs
  no_endTag : ¬ ['<', '/'] <:+: cs
  no_tag : ∀ c ∈ cs, isLetter c = true → ¬ ['<', c] <:+: cs

/-- How many doubled braces are open after a text, with `depth` open before it; nothing if the
outermost ones are closed. -/
def braceDepth? : Nat → List Char → Option Nat
  | depth, [] => some depth
  | depth, '\x7b' :: '\x7b' :: cs => braceDepth? (depth + 1) cs
  | depth, '\x7d' :: '\x7d' :: cs => if depth ≤ 1 then none else braceDepth? (depth - 1) cs
  | depth, _ :: cs => braceDepth? depth cs

/-- An expression that can stand between doubled braces. -/
@[mk_iff]
structure ExpressionText (cs : List Char) : Prop where
  stripped : stripChars cs = cs
  balanced : braceDepth? 1 cs = some 1

/-- A text that can stand in a comment. -/
@[mk_iff]
structure CommentText (cs : List Char) : Prop where
  stripped : stripChars cs = cs
  no_close : ¬ ['-', '-', '>'] <:+: cs

/-- The name of a tag. -/
@[mk_iff]
structure TagText (cs : List Char) : Prop where
  letter : ∃ c ∈ cs.head?, isLetter c = true
  plain : ∀ c ∈ cs, isSpace c = false ∧ c ≠ '/' ∧ c ≠ '<' ∧ c ≠ '>'

/-- The brackets open after a character. -/
def bracketsAfter (brackets : Int) (c : Char) : Int :=
  if c = '[' then brackets + 1 else if c = ']' then brackets - 1 else brackets

/-- The parentheses open after a character. -/
def parensAfter (parens : Int) (c : Char) : Int :=
  if c = '(' then parens + 1 else if c = ')' then parens - 1 else parens

/-- The rest of a raw attribute name, with `brackets` and `parens` open before it: separators stand
only where one is open, quotes and angle brackets nowhere, and none is open at the end. -/
def isRawName (brackets parens : Int) : List Char → Bool
  | [] => brackets ≤ 0 && parens ≤ 0
  | c :: cs =>
    !(isQuote c || c == '<' || c == '>') &&
      !((brackets ≤ 0 && parens ≤ 0) && (isSpace c || c == '=' || c == '/')) &&
      isRawName (bracketsAfter brackets c) (parensAfter parens c) cs

/-- An attribute that is read from its own markup. -/
@[mk_iff]
structure Attribute.WellFormed (a : Attribute) : Prop where
  classified : Attribute.ofRaw a.rawName a.value a.span = a
  name_ne : a.rawName.toList ≠ []
  name : isRawName 0 0 a.rawName.toList = true
  value : ∀ v ∈ a.value, '"' ∉ v.toList

/-- A text is followed by no text, and by an interpolation only if it does not end in a brace. -/
def Node.FitsBefore : Node → List Node → Prop
  | .text _ _, .text _ _ :: _ => False
  | .text content _, .interpolation _ _ :: _ => content.toList.getLast? ≠ some '\x7b'
  | _, _ => True

mutual

/-- A node that is read from its own markup. -/
def Node.WellFormed : Node → Prop
  | .text content _ => PlainText content.toList
  | .interpolation expression _ => ExpressionText expression.toList
  | .comment content _ => CommentText content.toList
  | .element tag selfClosing attributes children _ =>
    TagText tag.toList ∧ (∀ a ∈ attributes, a.WellFormed) ∧
      ((selfClosing || isVoid tag) = true → children = []) ∧ Node.AllWellFormed children

/-- Siblings that are read from their markup. -/
def Node.AllWellFormed : List Node → Prop
  | [] => True
  | n :: ns => n.WellFormed ∧ n.FitsBefore ns ∧ Node.AllWellFormed ns

end

/-- A template that is read from its own markup. -/
def Document.WellFormed (d : Document) : Prop := Node.AllWellFormed d.children

/-! ### Deciding well-formedness -/

-- a quantifier over the characters of a text is decided on the text, not on all characters
instance (cs : List Char) : Decidable (PlainText cs) :=
  have : Decidable (∀ c ∈ cs, isLetter c = true → ¬ ['<', c] <:+: cs) := List.decidableBAll _ cs
  decidable_of_iff' _ (plainText_iff cs)

instance (cs : List Char) : Decidable (ExpressionText cs) :=
  decidable_of_iff' _ (expressionText_iff cs)

instance (cs : List Char) : Decidable (CommentText cs) := decidable_of_iff' _ (commentText_iff cs)

instance (cs : List Char) : Decidable (TagText cs) :=
  have : Decidable (∃ c ∈ cs.head?, isLetter c = true) := Option.decidableExistsMem _
  have : Decidable (∀ c ∈ cs, isSpace c = false ∧ c ≠ '/' ∧ c ≠ '<' ∧ c ≠ '>') :=
    List.decidableBAll _ cs
  decidable_of_iff' _ (tagText_iff cs)

instance (a : Attribute) : Decidable a.WellFormed := decidable_of_iff' _ a.wellFormed_iff

instance : (n : Node) → (ns : List Node) → Decidable (n.FitsBefore ns)
  | .text _ _, .text _ _ :: _ => isFalse id
  | .text content _, .interpolation _ _ :: _ =>
    inferInstanceAs (Decidable (content.toList.getLast? ≠ some '\x7b'))
  | .text _ _, [] | .text _ _, .comment _ _ :: _ | .text _ _, .element _ _ _ _ _ :: _ =>
    isTrue trivial
  | .interpolation _ _, _ | .comment _ _, _ | .element _ _ _ _ _, _ => isTrue trivial

mutual

def Node.decidableWellFormed : (n : Node) → Decidable n.WellFormed
  | .text content _ => inferInstanceAs (Decidable (PlainText content.toList))
  | .interpolation expression _ => inferInstanceAs (Decidable (ExpressionText expression.toList))
  | .comment content _ => inferInstanceAs (Decidable (CommentText content.toList))
  | .element tag selfClosing attributes children _ =>
    have := Node.decidableAllWellFormed children
    inferInstanceAs (Decidable (TagText tag.toList ∧ (∀ a ∈ attributes, a.WellFormed) ∧
      ((selfClosing || isVoid tag) = true → children = []) ∧ Node.AllWellFormed children))

def Node.decidableAllWellFormed : (ns : List Node) → Decidable (Node.AllWellFormed ns)
  | [] => isTrue trivial
  | n :: ns =>
    have := n.decidableWellFormed
    have := Node.decidableAllWellFormed ns
    inferInstanceAs (Decidable (n.WellFormed ∧ n.FitsBefore ns ∧ Node.AllWellFormed ns))

end

instance (d : Document) : Decidable d.WellFormed := Node.decidableAllWellFormed d.children

/-! ## Trees without places -/

/-- The place of a node that has lost its own. -/
def Span.nowhere : Span := ⟨0, 0, 0, 0⟩

/-- The attribute without its place. -/
def Attribute.unplaced (a : Attribute) : Attribute := { a with span := .nowhere }

mutual

/-- The node without its place and those of its parts. -/
def Node.unplaced : Node → Node
  | .text content _ => .text content .nowhere
  | .interpolation expression _ => .interpolation expression .nowhere
  | .comment content _ => .comment content .nowhere
  | .element tag selfClosing attributes children _ =>
    .element tag selfClosing (attributes.map Attribute.unplaced) (Node.unplacedAll children)
      .nowhere

/-- The nodes without their places. -/
def Node.unplacedAll : List Node → List Node
  | [] => []
  | n :: ns => n.unplaced :: Node.unplacedAll ns

end

/-- The template without the places of its nodes. -/
def Document.unplaced (d : Document) : Document := ⟨Node.unplacedAll d.children, .nowhere⟩

/-! ## Cuts of printed text -/

/-- Blanks around a text that has none of its own are all that is stripped. -/
theorem stripChars_padded {cs : List Char} (h : stripChars cs = cs) :
    stripChars (' ' :: (cs ++ [' '])) = cs := by
  have hblank : ∀ c ∈ [' '], isBlank c = true := List.forall_mem_singleton.mpr rfl
  exact stripChars_surround hblank hblank h

namespace Lexer

/-! ### Text -/

theorem starts_of_opening? {cs : List Char} (h : (opening? cs).isSome = true) :
    ['\x7b', '\x7b'] <+: cs ∨ ['<', '!', '-', '-'] <+: cs ∨ ['<', '/'] <+: cs ∨
      ∃ c, isLetter c = true ∧ ['<', c] <+: cs := by
  unfold opening? at h
  split at h
  · exact .inl ⟨_, rfl⟩
  · exact .inr (.inl ⟨_, rfl⟩)
  · exact .inr (.inr (.inl ⟨_, rfl⟩))
  · rename_i c cs _ _
    split at h
    · rename_i hc
      exact .inr (.inr (.inr ⟨c, hc, cs, rfl⟩))
    · exact absurd h Bool.false_ne_true
  · exact absurd h Bool.false_ne_true

/-- A mark at the start of two texts lies in the first, or reaches over to the second. -/
theorem prefix_append_cases {w t r : List Char} (h : w <+: t ++ r) :
    w <+: t ∨ ∃ c w', w = t ++ c :: w' ∧ r.head? = some c := by
  rcases List.prefix_or_prefix_of_prefix h (List.prefix_append t r) with hw | ⟨w', rfl⟩
  · exact .inl hw
  · cases w' with
    | nil => exact .inl (by simp)
    | cons c w' =>
      obtain ⟨r', hr⟩ := (List.prefix_append_right_inj t).mp h
      exact .inr ⟨c, w', rfl, by rw [← hr]; rfl⟩

/-- What may follow a text: the end, or a construct whose first brace is not taken for another. -/
structure Follows (cs r : List Char) : Prop where
  opens : r = [] ∨ (opening? r).isSome = true
  head : ∀ c, r.head? = some c → c = '<' ∨ c = '\x7b' ∧ cs.getLast? ≠ some '\x7b'

/-- Nothing starts inside of a text, whatever follows it. -/
theorem opening?_text {cs r t : List Char} (hcs : PlainText cs) (hr : Follows cs r)
    (hsuffix : t <:+ cs) (hne : t ≠ []) : opening? (t ++ r) = none := by
  have inside : ∀ {w : List Char}, w <+: t → w <:+: cs :=
    fun hw => hw.isInfix.trans hsuffix.isInfix
  -- a mark that reaches over into `r` is a brace or a `<` there
  have reach : ∀ {w : List Char} {c : Char} {w' : List Char}, w = t ++ c :: w' →
      r.head? = some c → c ∈ w.tail ∧ (c = '<' ∨ c = '\x7b' ∧ cs.getLast? ≠ some '\x7b') := by
    intro w c w' hw hc
    refine ⟨?_, hr.head c hc⟩
    rw [hw, List.tail_append_of_ne_nil hne]
    exact List.mem_append_right _ List.mem_cons_self
  rw [← Option.not_isSome_iff_eq_none]
  intro h
  rcases starts_of_opening? h with h | h | h | ⟨c, hc, h⟩
  · rcases prefix_append_cases h with h | ⟨c, w', hw, hc⟩
    · exact hcs.no_interpolation (inside h)
    · obtain ⟨hmem, hhead⟩ := reach hw hc
      obtain rfl : c = '\x7b' := by simpa using hmem
      obtain ⟨front, rfl⟩ := hsuffix
      obtain rfl : t = ['\x7b'] := by
        match t, hne, hw with
        | [x], _, hw => rw [(List.cons.inj hw).1]
        | x :: y :: t, _, hw => simp at hw
      rcases hhead with h | ⟨-, hlast⟩
      · exact absurd h (by decide)
      · exact hlast List.getLast?_concat
  · rcases prefix_append_cases h with h | ⟨c, w', hw, hc⟩
    · exact hcs.no_comment (inside h)
    · obtain ⟨hmem, rfl | ⟨rfl, -⟩⟩ := reach hw hc <;> exact absurd hmem (by decide)
  · rcases prefix_append_cases h with h | ⟨c, w', hw, hc⟩
    · exact hcs.no_endTag (inside h)
    · obtain ⟨hmem, rfl | ⟨rfl, -⟩⟩ := reach hw hc <;> exact absurd hmem (by decide)
  · rcases prefix_append_cases h with h | ⟨d, w', hw, hd⟩
    · exact hcs.no_tag c ((inside h).subset (by simp)) hc (inside h)
    · obtain ⟨hmem, hd⟩ := reach hw hd
      obtain rfl : d = c := by simpa using hmem
      rcases hd with rfl | ⟨rfl, -⟩ <;> exact absurd hc (by decide)

/-- A text is cut where it ends. -/
theorem cutText_text {cs r t : List Char} (hcs : PlainText cs) (hr : Follows cs r)
    (hsuffix : t <:+ cs) : cutText (t ++ r) = (t, r) := by
  induction t with
  | nil =>
    rcases hr.opens with rfl | hopens
    · rfl
    · cases r with
      | nil => rfl
      | cons c r => rw [List.nil_append, cutText, if_pos hopens]
  | cons c t ih =>
    have hnone := opening?_text hcs hr hsuffix (List.cons_ne_nil c t)
    rw [List.cons_append] at hnone ⊢
    rw [cutText, hnone, ih ((List.suffix_cons c t).trans hsuffix)]
    rfl

theorem reads_text {cs r : List Char} (hcs : PlainText cs) (hr : Follows cs r) :
    Reads .data (cs ++ r) [.plain .text cs] .data r := by
  obtain ⟨c, t, rfl⟩ := List.exists_cons_of_ne_nil hcs.ne_nil
  exact .text (opening?_text hcs hr List.suffix_rfl (List.cons_ne_nil c t))
    (cutText_text hcs hr (List.suffix_cons c t))

/-! ### Interpolations and comments -/

/-- A mark does not reach over a blank. -/
theorem cons_of_append_blank {cs r t : List Char} {c : Char} (h : cs ++ ' ' :: r = c :: t)
    (hc : c ≠ ' ') : ∃ cs', cs = c :: cs' ∧ t = cs' ++ ' ' :: r := by
  cases cs with
  | nil =>
    cases h
    exact absurd rfl hc
  | cons d cs =>
    cases h
    exact ⟨cs, rfl, rfl⟩

/-- An expression that closes no braces of its own is passed as a whole, up to a blank. -/
theorem cutInterpolation_append {depth depth' : Nat} {cs : List Char} (r : List Char)
    (h : braceDepth? depth cs = some depth') :
    cutInterpolation depth (cs ++ ' ' :: r) =
      let cut := cutInterpolation depth' r
      (cs ++ ' ' :: cut.1, cut.2) := by
  fun_induction braceDepth? depth cs with
  | case1 depth =>
    cases h
    rfl
  | case2 depth cs ih =>
    simp only [List.cons_append, cutInterpolation, ih h]
  | case3 depth cs hd => cases h
  | case4 depth cs hd ih =>
    simp only [List.cons_append, cutInterpolation, if_neg hd, ih h]
  | case5 depth c cs hopen hclose ih =>
    rw [List.cons_append, cutInterpolation, ih h]
    · rfl
    · intro t hc ht
      obtain ⟨cs', rfl, -⟩ := cons_of_append_blank ht (by decide)
      exact hopen cs' hc rfl
    · intro t hc ht
      obtain ⟨cs', rfl, -⟩ := cons_of_append_blank ht (by decide)
      exact hclose cs' hc rfl

theorem reads_interpolation {cs : List Char} (h : ExpressionText cs) (r : List Char) :
    Reads .data ('\x7b' :: '\x7b' :: ' ' :: (cs ++ ' ' :: '\x7d' :: '\x7d' :: r))
      [.token .interpolation cs
        ('\x7b' :: '\x7b' :: (' ' :: (cs ++ [' '])) ++ ['\x7d', '\x7d'])] .data r := by
  have hcut : cutInterpolation 1 (' ' :: (cs ++ ' ' :: '\x7d' :: '\x7d' :: r)) =
      (' ' :: (cs ++ [' ']), ['\x7d', '\x7d'], r) := by
    have hbalanced : braceDepth? 1 (' ' :: cs) = some 1 := by
      rw [braceDepth?, h.balanced] <;> simp
    exact cutInterpolation_append ('\x7d' :: '\x7d' :: r) hbalanced
  have hread := Reads.interpolation hcut
  rw [stripChars_padded h.stripped] at hread
  exact hread

/-- A comment is cut at its closing mark, which its text does not hold. -/
theorem cutComment_append {cs : List Char} (r : List Char) (h : ¬ ['-', '-', '>'] <:+: cs) :
    cutComment (cs ++ ' ' :: '-' :: '-' :: '>' :: r) = (cs ++ [' '], ['-', '-', '>'], r) := by
  induction cs with
  | nil => rfl
  | cons c cs ih =>
    rw [List.cons_append, cutComment, ih fun hin => h (List.infix_cons hin)]
    · rfl
    · rintro t rfl ht
      obtain ⟨cs, rfl, hrest⟩ := cons_of_append_blank ht (by decide)
      obtain ⟨cs, rfl, -⟩ := cons_of_append_blank hrest.symm (by decide)
      exact h ⟨[], cs, rfl⟩

theorem reads_comment {cs : List Char} (h : CommentText cs) (r : List Char) :
    Reads .data ('<' :: '!' :: '-' :: '-' :: ' ' :: (cs ++ ' ' :: '-' :: '-' :: '>' :: r))
      [.token .comment cs
        ('<' :: '!' :: '-' :: '-' :: (' ' :: (cs ++ [' '])) ++ ['-', '-', '>'])] .data r := by
  have hclose : ¬ ['-', '-', '>'] <:+: ' ' :: cs := by
    intro hin
    rcases List.infix_cons_iff.mp hin with hstart | hin
    · exact absurd (List.cons_prefix_cons.mp hstart).1 (by decide)
    · exact h.no_close hin
  have hcut : cutComment (' ' :: (cs ++ ' ' :: '-' :: '-' :: '>' :: r)) =
      (' ' :: (cs ++ [' ']), ['-', '-', '>'], r) := cutComment_append r hclose
  have hread := Reads.comment hcut
  rw [stripChars_padded h.stripped] at hread
  exact hread

/-! ### Attribute names -/

/-- A raw name is cut where it ends, at a character that no name goes on with. -/
theorem cutAttrName_append {brackets parens : Int} {name : List Char}
    (hname : isRawName brackets parens name = true) {c : Char}
    (hc : c = ' ' ∨ c = '=' ∨ c = '>') (r : List Char) :
    cutAttrName brackets parens (name ++ c :: r) = (name, c :: r) := by
  induction name generalizing brackets parens with
  | nil =>
    simp only [isRawName, Bool.and_eq_true, decide_eq_true_eq] at hname
    rcases hc with rfl | rfl | rfl <;> simp [cutAttrName, isQuote, isSpace, hname]
  | cons d name ih =>
    simp only [isRawName, Bool.and_eq_true, Bool.not_eq_true'] at hname
    obtain ⟨⟨hplain, hsep⟩, hrest⟩ := hname
    rw [List.cons_append, cutAttrName, if_neg (by rw [hplain]; exact Bool.false_ne_true), if_neg]
    · have hcut := ih hrest
      unfold bracketsAfter parensAfter at hcut
      simp only [hcut]
    · rintro ⟨hb, hp, hd⟩
      rw [hd, decide_eq_true hb, decide_eq_true hp] at hsep
      exact Bool.noConfusion hsep

theorem cutAttrToken_append {name : List Char} (hne : name ≠ [])
    (hname : isRawName 0 0 name = true) {c : Char} (hc : c = ' ' ∨ c = '=' ∨ c = '>')
    (r : List Char) : cutAttrToken (name ++ c :: r) = (name, c :: r) := by
  have hcut := cutAttrName_append hname hc r
  unfold cutAttrToken
  split
  · rename_i hnil _
    rw [hnil] at hcut
    exact absurd (congrArg Prod.fst hcut).symm hne
  · exact hcut

/-- The first character of a raw name starts an attribute. -/
theorem head_of_isRawName {d : Char} {name : List Char} (h : isRawName 0 0 (d :: name) = true) :
    isSpace d = false ∧ d ≠ '>' ∧ d ≠ '/' ∧ d ≠ '=' := by
  simp only [isRawName, Bool.and_eq_true, Bool.not_eq_true', Bool.or_eq_false_iff,
    Int.le_refl, decide_true, Bool.true_and, beq_eq_false_iff_ne] at h
  obtain ⟨⟨⟨-, hclose⟩, ⟨hspace, hequals⟩, hslash⟩, -⟩ := h
  exact ⟨hspace, hclose, hslash, hequals⟩

/-! ## Runs of readings -/

/-- **The lexer reads `cs` up to `r`**, from mode `m` to mode `m'`, and the tokens on the way
satisfy `T`. -/
def Emits (m m' : Mode) (cs r : List Char) (T : List Token → Prop) : Prop :=
  ∀ place, ∃ ts place', T ts ∧
    (Lexer.mk m place cs).run.1 = ts ++ (Lexer.mk m' place' r).run.1

namespace Emits

variable {m m' m'' : Mode} {cs r r' : List Char} {T U V : List Token → Prop}

theorem done (h : T []) : Emits m m cs cs T := fun place => ⟨[], place, h, rfl⟩

/-- One reading, and what is read after it. -/
theorem read {ps : List Piece} (later : Emits m' m'' r r' T) (hcs : cs ≠ [])
    (hread : Reads m cs ps m' r) (h : ∀ place ts, T ts → U (layout place ps ++ ts)) :
    Emits m m'' cs r' U := by
  intro place
  obtain ⟨ts, place', hts, hrun⟩ := later (place.skip (written ps))
  refine ⟨layout place ps ++ ts, place', h place ts hts, ?_⟩
  rw [run, dif_neg hcs, step_of_reads hread]
  change layout place ps ++ _ = _
  rw [hrun, List.append_assoc]

/-- A reading without tokens. -/
theorem silent {ps : List Piece} (later : Emits m' m'' r r' T) (hcs : cs ≠ [])
    (hread : Reads m cs ps m' r) (hps : ∀ place, layout place ps = []) : Emits m m'' cs r' T :=
  later.read hcs hread fun place ts hts => by rwa [hps, List.nil_append]

theorem append (h : Emits m m' cs r T) (later : Emits m' m'' r r' U)
    (happend : ∀ ts us, T ts → U us → V (ts ++ us)) : Emits m m'' cs r' V := by
  intro place
  obtain ⟨ts, place', hts, hrun⟩ := h place
  obtain ⟨us, place'', hus, hrun'⟩ := later place'
  refine ⟨ts ++ us, place'', happend ts us hts hus, ?_⟩
  rw [hrun, hrun', List.append_assoc]

end Emits

/-- What is read of a whole source are its tokens. -/
theorem tokens_of_emits {source : String} {m : Mode} {T : List Token → Prop}
    (h : Emits .data m source.toList [] T) : T (tokenize source).tokens := by
  obtain ⟨ts, place, hts, hrun⟩ := h {}
  have htokens : (tokenize source).tokens = ts := by
    change (Lexer.mk .data {} source.toList).run.1 = ts
    rw [hrun, run]
    simp
  rw [htokens]
  exact hts

end Lexer

/-! ## Opening tags -/

/-- The phrase is that of the attribute, wherever it stands. -/
structure AttrPhrase.Spells (p : AttrPhrase) (a : Attribute) : Prop where
  faults : p.faults = []
  same : p.toAttribute.unplaced = a.unplaced

theorem Attribute.unplaced_ofRaw (raw : String) (value : Option String) (s t : Span) :
    (Attribute.ofRaw raw value s).unplaced = (Attribute.ofRaw raw value t).unplaced := by
  unfold Attribute.ofRaw
  obtain ⟨binding, name⟩ := Binding.classify raw
  cases binding <;> rfl

/-- The attribute read from a raw name is the one that is written with it. -/
theorem Attribute.WellFormed.unplaced_eq {a : Attribute} (h : a.WellFormed) (s : Span) :
    (Attribute.ofRaw a.rawName a.value s).unplaced = a.unplaced := by
  rw [Attribute.unplaced_ofRaw a.rawName a.value s a.span, h.classified]

/-- The mark that ends an opening tag. -/
def closeChars (selfClosing : Bool) : List Char := if selfClosing then ['/', '>'] else ['>']

/-- The blank before an attribute or before a slash. -/
def gapChars (selfClosing : Bool) : List Attribute → List Char
  | [] => if selfClosing then [' '] else []
  | _ :: _ => [' ']

theorem gapChars_eq (selfClosing : Bool) (as : List Attribute) :
    gapChars selfClosing as = [] ∨ gapChars selfClosing as = [' '] := by
  cases as with
  | nil =>
    cases selfClosing
    · exact .inl rfl
    · exact .inr rfl
  | cons a as => exact .inr rfl

/-- The attributes of an opening tag and its end, without the blank before them. -/
def attrChars (selfClosing : Bool) : List Attribute → List Char
  | [] => closeChars selfClosing
  | a :: as => a.markup.toList ++ (gapChars selfClosing as ++ attrChars selfClosing as)

/-- An opening tag as it is printed. -/
theorem toList_openingMarkup (tag : String) (selfClosing : Bool) (attributes : List Attribute) :
    (openingMarkup tag attributes).toList ++ (gapChars selfClosing [] ++ closeChars selfClosing) =
      tag.toList ++ (gapChars selfClosing attributes ++ attrChars selfClosing attributes) := by
  induction attributes generalizing tag with
  | nil => simp [openingMarkup, attrChars]
  | cons a as ih =>
    have hcons : openingMarkup tag (a :: as) = tag ++ " " ++ openingMarkup a.markup as := by
      simp [openingMarkup]
    rw [hcons, String.toList_append, String.toList_append, List.append_assoc, ih]
    simp [attrChars, gapChars]

theorem Attribute.toList_markup_none {a : Attribute} (h : a.value = none) :
    a.markup.toList = a.rawName.toList := by
  rw [Attribute.markup, h]

theorem Attribute.toList_markup_some {a : Attribute} {v : String} (h : a.value = some v) :
    a.markup.toList = a.rawName.toList ++ '=' :: '"' :: (v.toList ++ ['"']) := by
  rw [Attribute.markup, h]
  simp

namespace Lexer

variable {selfClosing : Bool} {r : List Char}

theorem allOf_nil : AllOf isSpace [] := fun _ h => absurd h List.not_mem_nil

theorem allOf_blank : AllOf isSpace [' '] := by simp [AllOf, isSpace]

theorem allOf_gapChars (selfClosing : Bool) (as : List Attribute) :
    AllOf isSpace (gapChars selfClosing as) := by
  rcases gapChars_eq selfClosing as with h | h <;> rw [h]
  · exact allOf_nil
  · exact allOf_blank

/-- An attribute starts with a character that neither separates nor ends anything. -/
theorem head_markup {a : Attribute} (h : a.WellFormed) (x : List Char) :
    ∃ d cs, a.markup.toList ++ x = d :: cs ∧ isSpace d = false ∧ d ≠ '>' ∧ d ≠ '/' ∧ d ≠ '=' := by
  obtain ⟨d, name, hraw⟩ := List.exists_cons_of_ne_nil h.name_ne
  have hname := h.name
  rw [hraw] at hname
  cases hv : a.value with
  | none =>
    refine ⟨d, name ++ x, ?_, head_of_isRawName hname⟩
    rw [Attribute.toList_markup_none hv, hraw, List.cons_append]
  | some v =>
    refine ⟨d, name ++ '=' :: '"' :: (v.toList ++ ['"']) ++ x, ?_, head_of_isRawName hname⟩
    rw [Attribute.toList_markup_some hv, hraw, List.cons_append, List.cons_append]

/-- An attribute or the end of the tag starts here. -/
theorem head_attrChars {as : List Attribute} (has : ∀ a ∈ as, a.WellFormed) :
    ∃ c, (attrChars selfClosing as ++ r).head? = some c ∧ isSpace c = false ∧ c ≠ '=' := by
  cases as with
  | nil => cases selfClosing <;> exact ⟨_, rfl, by decide, by decide⟩
  | cons a as =>
    obtain ⟨d, cs, hcs, hspace, -, -, hequals⟩ := head_markup (has a List.mem_cons_self)
      ((gapChars selfClosing as ++ attrChars selfClosing as) ++ r)
    refine ⟨d, ?_, hspace, hequals⟩
    rw [attrChars, List.append_assoc, hcs]
    rfl

/-- After a name there is a blank or the tag ends. -/
theorem head_gapChars (selfClosing : Bool) (as : List Attribute) (r : List Char) :
    ∃ c cs, gapChars selfClosing as ++ (attrChars selfClosing as ++ r) = c :: cs ∧
      (c = ' ' ∨ c = '=' ∨ c = '>') ∧ c ≠ '=' := by
  cases as with
  | nil =>
    cases selfClosing
    · exact ⟨'>', _, rfl, .inr (.inr rfl), by decide⟩
    · exact ⟨' ', _, rfl, .inl rfl, by decide⟩
  | cons a as => exact ⟨' ', _, rfl, .inl rfl, by decide⟩

/-- The lexer passes from a name to what follows it. -/
theorem emits_afterName {as : List Attribute} (has : ∀ a ∈ as, a.WellFormed)
    {T : List Token → Prop}
    (later : Emits .beforeAttrName .data (attrChars selfClosing as ++ r) r T) :
    Emits (modeAfterName (gapChars selfClosing as ++ (attrChars selfClosing as ++ r))) .data
      (gapChars selfClosing as ++ (attrChars selfClosing as ++ r)) r T := by
  obtain ⟨c, hc, hspace, hequals⟩ := head_attrChars (r := r) has
  rcases gapChars_eq selfClosing as with hgap | hgap
  · rw [hgap, List.nil_append, modeAfterName, hc]
    simpa [hspace] using later
  · rw [hgap]
    refine later.silent (List.cons_ne_nil _ _) (.noEquals allOf_blank ?_ ?_) fun _ => rfl
    · intro d hd
      rw [hc] at hd
      cases hd
      exact hspace
    · rw [hc]
      simpa using hequals

/-- What the lexer gives for the attributes of an opening tag and its end. -/
def AttrsRead (selfClosing : Bool) (as : List Attribute) (ts : List Token) : Prop :=
  ∃ (attrs : List AttrPhrase) (close : Lexeme),
    ts = attrTokens attrs ++ [close.token (Phrase.closeKind selfClosing)] ∧
      List.Forall₂ AttrPhrase.Spells attrs as

/-- One more attribute in front. -/
theorem AttrsRead.cons {as : List Attribute} {ts : List Token} (h : AttrsRead selfClosing as ts)
    {p : AttrPhrase} {a : Attribute} (hp : p.Spells a) :
    AttrsRead selfClosing (a :: as) (p.tokens ++ ts) := by
  obtain ⟨attrs, close, rfl, hattrs⟩ := h
  exact ⟨p :: attrs, close, by rw [attrTokens_cons, List.append_assoc], .cons hp hattrs⟩

/-- An attribute from its name on. -/
theorem emits_attribute {a : Attribute} (ha : a.WellFormed) {as : List Attribute}
    (has : ∀ b ∈ as, b.WellFormed)
    (later : ∀ sp, AllOf isSpace sp → Emits .beforeAttrName .data
      (sp ++ (attrChars selfClosing as ++ r)) r (AttrsRead selfClosing as)) :
    Emits .attrName .data
      (a.markup.toList ++ (gapChars selfClosing as ++ (attrChars selfClosing as ++ r))) r
      (AttrsRead selfClosing (a :: as)) := by
  obtain ⟨d, cs, hcs, -⟩ :=
    head_markup ha (gapChars selfClosing as ++ (attrChars selfClosing as ++ r))
  have hne : a.markup.toList ++ (gapChars selfClosing as ++ (attrChars selfClosing as ++ r)) ≠
      [] := by
    rw [hcs]
    exact List.cons_ne_nil d cs
  cases hv : a.value with
  | none =>
    -- the lexer passes the blank itself, in search of an `=`
    obtain ⟨c, x, hx, hc, hequals⟩ := head_gapChars selfClosing as r
    have hafter := emits_afterName has (later [] allOf_nil)
    rw [Attribute.toList_markup_none hv] at hne ⊢
    rw [hx] at hafter hne ⊢
    refine hafter.read hne (.attrName (cutAttrToken_append ha.name_ne ha.name hc x)
      (by simpa using hequals)) fun place ts hts => ?_
    refine hts.cons (p := .bare ⟨String.ofList a.rawName.toList, _⟩) ⟨rfl, ?_⟩
    rw [String.ofList_toList, ← ha.unplaced_eq, hv]
    rfl
  | some v =>
    -- the lexer stops at the closing quote, so the blank stands before the next attribute
    have hquoted : Emits (.quotedValue '"') .data
        (v.toList ++ '"' :: (gapChars selfClosing as ++ (attrChars selfClosing as ++ r))) r
        fun ts => ∃ span ts', ts = ⟨.attrValue, String.ofList v.toList, span⟩ :: ts' ∧
          AttrsRead selfClosing as ts' :=
      (later _ (allOf_gapChars selfClosing as)).read
        (List.append_ne_nil_of_right_ne_nil _ (List.cons_ne_nil _ _))
        (.quotedValue (ha.value v hv)) fun place ts hts => ⟨_, ts, rfl, hts⟩
    have hvalue := hquoted.silent (m := .beforeAttrValue) (List.cons_ne_nil _ _)
      (.openQuote allOf_nil rfl) fun _ => rfl
    rw [Attribute.toList_markup_some hv] at hne ⊢
    simp only [List.append_assoc, List.cons_append, List.nil_append] at hne ⊢
    refine hvalue.read hne
      (.attrNameEquals (cutAttrToken_append ha.name_ne ha.name (.inr (.inl rfl)) _)) ?_
    rintro place _ ⟨span, ts, rfl, hts⟩
    refine hts.cons (p := .valued ⟨String.ofList a.rawName.toList, _⟩ ⟨_, _⟩
      ⟨String.ofList v.toList, span⟩) ⟨rfl, ?_⟩
    rw [String.ofList_toList, String.ofList_toList, ← ha.unplaced_eq, hv]
    rfl

/-- **The attributes of an opening tag**, by induction on them; `sp` are the blanks before. -/
theorem emits_attributes (selfClosing : Bool) (r : List Char) {as : List Attribute}
    (has : ∀ a ∈ as, a.WellFormed) {sp : List Char} (hsp : AllOf isSpace sp) :
    Emits .beforeAttrName .data (sp ++ (attrChars selfClosing as ++ r)) r
      (AttrsRead selfClosing as) := by
  induction as generalizing sp with
  | nil =>
    have hdone : Emits .data .data r r (· = []) := .done rfl
    cases selfClosing with
    | false =>
      refine hdone.read (List.append_ne_nil_of_right_ne_nil _ (List.cons_ne_nil _ _))
        (.tagClose hsp) ?_
      rintro place ts rfl
      exact ⟨[], ⟨_, _⟩, rfl, .nil⟩
    | true =>
      refine hdone.read (List.append_ne_nil_of_right_ne_nil _ (List.cons_ne_nil _ _))
        (.tagSelfClose hsp) ?_
      rintro place ts rfl
      exact ⟨[], ⟨_, _⟩, rfl, .nil⟩
  | cons a as ih =>
    have ha := has a List.mem_cons_self
    have has' : ∀ b ∈ as, b.WellFormed := fun b hb => has b (List.mem_cons_of_mem a hb)
    have hattr := emits_attribute ha has' fun sp hsp => ih has' hsp
    obtain ⟨d, cs, hcs, hspace, hclose, hslash, -⟩ :=
      head_markup ha (gapChars selfClosing as ++ (attrChars selfClosing as ++ r))
    rw [attrChars, List.append_assoc, List.append_assoc, hcs]
    rw [hcs] at hattr
    exact hattr.silent (List.append_ne_nil_of_right_ne_nil _ (List.cons_ne_nil _ _))
      (.attrStart hsp hspace hclose hslash) fun _ => rfl

theorem allOf_inTagName {tag : List Char} (h : TagText tag) : AllOf inTagName tag := by
  intro c hc
  obtain ⟨hspace, hslash, -, hclose⟩ := h.plain c hc
  simp [inTagName, hspace, hslash, hclose]

theorem allOf_inEndTagName {tag : List Char} (h : TagText tag) : AllOf inEndTagName tag := by
  intro c hc
  obtain ⟨hspace, -, hopen, hclose⟩ := h.plain c hc
  simp [inEndTagName, hspace, hopen, hclose]

theorem stopsAt_space {tag : List Char} (h : TagText tag) (x : List Char) :
    StopsAt isSpace (tag ++ x) := by
  obtain ⟨c, hhead, -⟩ := h.letter
  obtain ⟨cs, rfl⟩ := List.head?_eq_some_iff.mp hhead
  exact stopsAt_cons (h.plain c List.mem_cons_self).1

/-- **A whole opening tag.** -/
theorem emits_opening {tag : String} (htag : TagText tag.toList) {as : List Attribute}
    (has : ∀ a ∈ as, a.WellFormed) :
    Emits .data .data
      ('<' :: (tag.toList ++ (gapChars selfClosing as ++ (attrChars selfClosing as ++ r)))) r
      fun ts => ∃ first name attrs close,
        ts = (Phrase.opening first name attrs selfClosing close).tokens ∧ name.value = tag ∧
          List.Forall₂ AttrPhrase.Spells attrs as := by
  obtain ⟨c, hhead, hc⟩ := htag.letter
  obtain ⟨cs, hcs⟩ := List.head?_eq_some_iff.mp hhead
  have hattrs := emits_attributes selfClosing r has (allOf_gapChars selfClosing as)
  have hname : Emits .tagName .data
      (tag.toList ++ (gapChars selfClosing as ++ (attrChars selfClosing as ++ r))) r
      fun ts => ∃ span ts', ts = ⟨.tagName, String.ofList tag.toList, span⟩ :: ts' ∧
        AttrsRead selfClosing as ts' := by
    refine hattrs.read ?_ (.tagName ?_ ?_) fun place ts hts => ⟨_, ts, rfl, hts⟩
    · rw [hcs]
      exact List.cons_ne_nil _ _
    · exact allOf_inTagName htag
    · obtain ⟨d, x, hx, hd, hequals⟩ := head_gapChars selfClosing as r
      rw [hx]
      rcases hd with rfl | rfl | rfl
      · exact stopsAt_cons rfl
      · exact absurd rfl hequals
      · exact stopsAt_cons rfl
  rw [hcs] at hname ⊢
  refine hname.read (List.cons_ne_nil _ _) (.tagOpen hc) ?_
  rintro place _ ⟨span, _, rfl, attrs, close, rfl, hspells⟩
  refine ⟨⟨_, _⟩, ⟨String.ofList (c :: cs), span⟩, attrs, close, rfl, ?_, hspells⟩
  change String.ofList (c :: cs) = tag
  rw [← hcs, String.ofList_toList]

/-- **A closing tag.** -/
theorem emits_closing {tag : String} (htag : TagText tag.toList) :
    Emits .data .data ('<' :: '/' :: (tag.toList ++ '>' :: r)) r
      fun ts => ∃ first name close,
        ts = (Phrase.closing first name (some close)).tokens ∧ name.value = tag := by
  have hdone : Emits .data .data r r (· = []) := .done rfl
  have hname : Emits .endTagName .data (tag.toList ++ '>' :: r) r
      fun ts => ∃ span close, ts =
        [⟨.tagName, String.ofList tag.toList, span⟩, Lexeme.token close .tagClose] := by
    have hread : Reads .endTagName (tag.toList ++ '>' :: r)
        [.spaces [], .plain .tagName tag.toList, .spaces [], .plain .tagClose ['>']] .data r :=
      .endTagClosed allOf_nil (stopsAt_space htag _) (allOf_inEndTagName htag) allOf_nil
    refine hdone.read (List.append_ne_nil_of_right_ne_nil _ (List.cons_ne_nil _ _)) hread ?_
    rintro place ts rfl
    exact ⟨_, ⟨_, _⟩, rfl⟩
  refine hname.read (List.cons_ne_nil _ _) .endTagOpen ?_
  rintro place _ ⟨span, close, rfl⟩
  exact ⟨⟨_, _⟩, ⟨_, span⟩, close, rfl, String.ofList_toList⟩

end Lexer

/-! ## Nodes -/

/-- **The phrases of siblings**, wherever they stand: a leaf is a phrase, an element its opening
tag and, unless that stands alone, the phrases of its children and its closing tag. -/
inductive Spells : List Phrase → List Node → Prop
  | nil : Spells [] []
  | leaf {kind : LeafKind} {x y : Lexeme} {ps : List Phrase} {ns : List Node}
      (hvalue : x.value = y.value) (hns : Spells ps ns) :
      Spells (.leaf kind x :: ps) (kind.node y :: ns)
  | alone {first name close : Lexeme} {attrs : List AttrPhrase} {selfClosing : Bool}
      {as : List Attribute} {span : Span} {ps : List Phrase} {ns : List Node}
      (halone : (selfClosing || isVoid name.value) = true)
      (hattrs : List.Forall₂ AttrPhrase.Spells attrs as) (hns : Spells ps ns) :
      Spells (.opening first name attrs selfClosing close :: ps)
        (.element name.value selfClosing as [] span :: ns)
  | element {first name close first' name' close' : Lexeme} {attrs : List AttrPhrase}
      {as : List Attribute} {span : Span} {qs ps : List Phrase} {children ns : List Node}
      (hopen : isVoid name.value = false) (hname : name'.value = name.value)
      (hattrs : List.Forall₂ AttrPhrase.Spells attrs as) (hchildren : Spells qs children)
      (hns : Spells ps ns) :
      Spells (.opening first name attrs false close ::
          (qs ++ .closing first' name' (some close') :: ps))
        (.element name.value false as children span :: ns)

theorem Spells.append {ps qs : List Phrase} {ns ms : List Node} (h : Spells ps ns)
    (h' : Spells qs ms) : Spells (ps ++ qs) (ns ++ ms) := by
  induction h with
  | nil => exact h'
  | leaf hvalue hns ih => exact .leaf hvalue ih
  | alone halone hattrs hns ih => exact .alone halone hattrs ih
  | element hopen hname hattrs hchildren hns _ ih =>
    rw [List.cons_append, List.append_assoc]
    exact .element hopen hname hattrs hchildren ih

/-- Tokens of phrases that spell the nodes. -/
def NodesRead (ns : List Node) (ts : List Token) : Prop := ∃ ps, ts = phraseTokens ps ∧ Spells ps ns

theorem NodesRead.append {ns ms : List Node} {ts us : List Token} (h : NodesRead ns ts)
    (h' : NodesRead ms us) : NodesRead (ns ++ ms) (ts ++ us) := by
  obtain ⟨ps, rfl, hns⟩ := h
  obtain ⟨qs, rfl, hms⟩ := h'
  exact ⟨ps ++ qs, (phraseTokens_append ps qs).symm, hns.append hms⟩

namespace Lexer

/-- The token of a leaf. -/
theorem emits_leaf (kind : LeafKind) {cs r taken value : List Char} (hcs : cs ≠ [])
    (hread : Reads .data cs [.token kind.kind value taken] .data r) {content : String}
    (hvalue : value = content.toList) (span : Span) :
    Emits .data .data cs r (NodesRead [kind.node ⟨content, span⟩]) := by
  have hdone : Emits .data .data r r (· = []) := .done rfl
  refine hdone.read hcs hread ?_
  rintro place ts rfl
  refine ⟨[.leaf kind ⟨String.ofList value, _⟩], rfl, .leaf ?_ .nil⟩
  change String.ofList value = content
  rw [hvalue, String.ofList_toList]

/-- What siblings may be followed by: the end of the source or a closing tag. -/
def EndsNodes (r : List Char) : Prop := r = [] ∨ ∃ r', r = '<' :: '/' :: r'

/-- An element whose opening tag stands alone. -/
theorem toList_markup_alone {tag : String} {selfClosing : Bool}
    (h : (selfClosing || isVoid tag) = true) (as : List Attribute) (span : Span) :
    (Node.element tag selfClosing as [] span).markup.toList =
      '<' :: (tag.toList ++ (gapChars selfClosing as ++ attrChars selfClosing as)) := by
  rw [← toList_openingMarkup tag selfClosing as]
  cases selfClosing with
  | true => simp [Node.markup, gapChars, closeChars]
  | false =>
    have hvoid : isVoid tag = true := h
    simp [Node.markup, Node.markupAll, hvoid, gapChars, closeChars]

/-- An element with its closing tag. -/
theorem toList_markup_element {tag : String} (h : isVoid tag = false) (as : List Attribute)
    (children : List Node) (span : Span) :
    (Node.element tag false as children span).markup.toList =
      '<' :: (tag.toList ++ (gapChars false as ++ attrChars false as)) ++
        ((Node.markupAll children).toList ++ '<' :: '/' :: (tag.toList ++ ['>'])) := by
  rw [← toList_openingMarkup tag false as]
  simp [Node.markup, h, gapChars, closeChars]

/-- A well-formed element stands alone or has a closing tag. -/
theorem element_cases {tag : String} {selfClosing : Bool} {children : List Node}
    (h : (selfClosing || isVoid tag) = true → children = []) :
    (selfClosing || isVoid tag) = true ∧ children = [] ∨
      selfClosing = false ∧ isVoid tag = false := by
  by_cases halone : (selfClosing || isVoid tag) = true
  · exact .inl ⟨halone, h halone⟩
  · rw [Bool.not_eq_true, Bool.or_eq_false_iff] at halone
    exact .inr halone

/-- An element opens a tag. -/
theorem exists_markup_element {tag : String} {selfClosing : Bool} {children : List Node}
    (h : (selfClosing || isVoid tag) = true → children = []) (as : List Attribute) (span : Span) :
    ∃ x, (Node.element tag selfClosing as children span).markup.toList =
      '<' :: (tag.toList ++ x) := by
  rcases element_cases h with ⟨halone, rfl⟩ | ⟨rfl, hvoid⟩
  · exact ⟨_, toList_markup_alone halone as span⟩
  · refine ⟨gapChars false as ++ attrChars false as ++
      ((Node.markupAll children).toList ++ '<' :: '/' :: (tag.toList ++ ['>'])), ?_⟩
    rw [toList_markup_element hvoid, List.cons_append, List.append_assoc]

/-- A text may be followed by the markup of its next siblings. -/
theorem follows_markupAll {content : String} {span : Span} {ns : List Node} {r : List Char}
    (hfits : (Node.text content span).FitsBefore ns) (hns : Node.AllWellFormed ns)
    (hr : EndsNodes r) : Follows content.toList ((Node.markupAll ns).toList ++ r) := by
  match ns with
  | [] =>
    rcases hr with rfl | ⟨r, rfl⟩
    · exact ⟨.inl rfl, fun c hc => by cases hc⟩
    · refine ⟨.inr rfl, fun c hc => ?_⟩
      cases hc
      exact .inl rfl
  | .text _ _ :: ns => exact hfits.elim
  | .interpolation expression _ :: ns =>
    have hlast : content.toList.getLast? ≠ some '\x7b' := hfits
    rw [Node.markupAll, Node.markup]
    simp only [String.toList_append, List.append_assoc]
    refine ⟨.inr rfl, fun c hc => ?_⟩
    cases hc
    exact .inr ⟨rfl, hlast⟩
  | .comment text _ :: ns =>
    rw [Node.markupAll, Node.markup]
    simp only [String.toList_append, List.append_assoc]
    refine ⟨.inr rfl, fun c hc => ?_⟩
    cases hc
    exact .inl rfl
  | .element tag selfClosing as children span :: ns =>
    obtain ⟨htag, -, halone, -⟩ := hns.1
    obtain ⟨c, hhead, hletter⟩ := htag.letter
    obtain ⟨cs, hcs⟩ := List.head?_eq_some_iff.mp hhead
    obtain ⟨x, hx⟩ := exists_markup_element halone as span
    rw [Node.markupAll, String.toList_append, hx, hcs]
    refine ⟨.inr (Option.isSome_of_eq_some (opening?_letter hletter)), fun d hd => ?_⟩
    cases hd
    exact .inl rfl

/-- An element whose opening tag stands alone. -/
theorem emits_alone {tag : String} {selfClosing : Bool} (htag : TagText tag.toList)
    (halone : (selfClosing || isVoid tag) = true) {as : List Attribute}
    (has : ∀ a ∈ as, a.WellFormed) (span : Span) (r : List Char) :
    Emits .data .data ((Node.element tag selfClosing as [] span).markup.toList ++ r) r
      (NodesRead [.element tag selfClosing as [] span]) := by
  have hdone : Emits .data .data r r (· = []) := .done rfl
  rw [toList_markup_alone halone, List.cons_append, List.append_assoc, List.append_assoc]
  refine (emits_opening htag has).append hdone ?_
  rintro _ _ ⟨first, name, attrs, close, rfl, rfl, hattrs⟩ rfl
  exact ⟨[.opening first name attrs selfClosing close], rfl, .alone halone hattrs .nil⟩

/-- An element with a closing tag, around its children. -/
theorem emits_element {tag : String} (htag : TagText tag.toList) (hvoid : isVoid tag = false)
    {as : List Attribute} (has : ∀ a ∈ as, a.WellFormed) {children : List Node} (span : Span)
    (r : List Char)
    (hchildren : Emits .data .data
      ((Node.markupAll children).toList ++ '<' :: '/' :: (tag.toList ++ '>' :: r))
      ('<' :: '/' :: (tag.toList ++ '>' :: r)) (NodesRead children)) :
    Emits .data .data ((Node.element tag false as children span).markup.toList ++ r) r
      (NodesRead [.element tag false as children span]) := by
  have hinside : Emits .data .data
      ((Node.markupAll children).toList ++ '<' :: '/' :: (tag.toList ++ '>' :: r)) r
      fun ts => ∃ qs first name close,
        ts = phraseTokens (qs ++ [.closing first name (some close)]) ∧ Spells qs children ∧
          name.value = tag := by
    refine hchildren.append (emits_closing htag) ?_
    rintro _ _ ⟨qs, rfl, hqs⟩ ⟨first, name, close, rfl, hname⟩
    exact ⟨qs, first, name, close, (phraseTokens_snoc qs _).symm, hqs, hname⟩
  rw [toList_markup_element hvoid]
  simp only [List.cons_append, List.append_assoc, List.nil_append]
  refine (emits_opening htag has).append hinside ?_
  rintro _ _ ⟨first, name, attrs, close, rfl, rfl, hattrs⟩
    ⟨qs, first', name', close', rfl, hqs, hname⟩
  exact ⟨_, (phraseTokens_cons _ _).symm, .element hvoid hname hattrs hqs .nil⟩

mutual

/-- **The markup of a node** is read into phrases that spell it. -/
theorem emits_node (n : Node) (h : n.WellFormed) (r : List Char)
    (hr : ∀ content span, n = .text content span → Follows content.toList r) :
    Emits .data .data (n.markup.toList ++ r) r (NodesRead [n]) := by
  match n with
  | .text content span =>
    have hcontent : PlainText content.toList := h
    exact emits_leaf .text (List.append_ne_nil_of_left_ne_nil hcontent.ne_nil r)
      (reads_text hcontent (hr content span rfl)) rfl span
  | .interpolation expression span =>
    have hread := reads_interpolation h r
    rw [Node.markup]
    simp only [String.toList_append, List.append_assoc]
    exact emits_leaf .interpolation (List.cons_ne_nil _ _) hread rfl span
  | .comment content span =>
    have hread := reads_comment h r
    rw [Node.markup]
    simp only [String.toList_append, List.append_assoc]
    exact emits_leaf .comment (List.cons_ne_nil _ _) hread rfl span
  | .element tag selfClosing as children span =>
    obtain ⟨htag, has, hempty, hchildren⟩ := h
    rcases element_cases hempty with ⟨halone, rfl⟩ | ⟨rfl, hvoid⟩
    · exact emits_alone htag halone has span r
    · exact emits_element htag hvoid has span r
        (emits_markupAll children hchildren _ (.inr ⟨_, rfl⟩))

/-- **The markup of siblings** is read into phrases that spell them. -/
theorem emits_markupAll (ns : List Node) (h : Node.AllWellFormed ns) (r : List Char)
    (hr : EndsNodes r) :
    Emits .data .data ((Node.markupAll ns).toList ++ r) r (NodesRead ns) := by
  match ns with
  | [] => exact .done ⟨[], rfl, .nil⟩
  | n :: ns =>
    obtain ⟨hn, hfits, hns⟩ := h
    have hfollows : ∀ content span, n = .text content span →
        Follows content.toList ((Node.markupAll ns).toList ++ r) := by
      rintro content span rfl
      exact follows_markupAll hfits hns hr
    rw [Node.markupAll, String.toList_append, List.append_assoc]
    exact (emits_node n hn _ hfollows).append (emits_markupAll ns hns r hr)
      fun _ _ => NodesRead.append

end

end Lexer

end Trellis.Template
