import Trellis.Proofs.Template.Sentence

/-!
# The lexer loses nothing

Every token says where it stands, and the spans together with the few characters between them are
the source again.

* `Faithful`: what a token's value has to do with the characters of its span. It is those
  characters; for interpolations and comments, what is between the delimiters, stripped.
* `Passed`: the characters that no token covers. They are separators, the quotes around an
  attribute value, and slashes inside of opening tags.
* `Laid`: the invariant behind both, over the pieces that a scan reads. Each piece is judged by the
  pieces before it and the characters after it, so a longer scan changes no judgement.
* `tokenize_lossless`: spans are ordered and in bounds, values are faithful, and every other
  character is passed.
-/

namespace Trellis.Template

open Trellis.Text Lexer

/-! ## Spans, values and gaps -/

/-- The characters from offset `start` up to offset `stop`. -/
def slice (s : List Char) (start stop : Nat) : List Char := (s.drop start).take (stop - start)

/-- The token covers the character at offset `i`. -/
def Token.Covers (t : Token) (i : Nat) : Prop := t.span.start ≤ i ∧ i < t.span.stop

/-- The span holds `left`, some inner text and `right`, or the source ends before `right`; the
value is the inner text without white space at its ends. -/
def Token.Delimited (s : List Char) (t : Token) (left right : List Char) : Prop :=
  ∃ inner, t.value = strip (String.ofList inner) ∧
    (slice s t.span.start t.span.stop = left ++ inner ++ right ∨
      slice s t.span.start t.span.stop = left ++ inner ∧ t.span.stop = s.length)

/-- The value of a token, from the source characters of its span. -/
def Token.Faithful (s : List Char) (t : Token) : Prop :=
  match t.kind with
  | .interpolation => t.Delimited s ['\x7b', '\x7b'] ['\x7d', '\x7d']
  | .comment => t.Delimited s ['<', '!', '-', '-'] ['-', '-', '>']
  | .eof => t.value = "" ∧ t.span.start = s.length ∧ t.span.stop = s.length
  | _ => t.value.toList = slice s t.span.start t.span.stop

/-- The quote at `i` opens an attribute value: only separators stand between it and an `=`. -/
def OpensValue (s : List Char) (ts : List Token) (i : Nat) : Prop :=
  ∃ e ∈ ts, e.kind = .attrEquals ∧ e.span.stop ≤ i ∧ AllOf isSpace (slice s e.span.stop i) ∧
    ∃ q, s[i]? = some q ∧ isQuote q = true

/-- The quote at `i` closes an attribute value: it follows the value, and the same quote directly
before the value opens it. -/
def ClosesValue (s : List Char) (ts : List Token) (i : Nat) : Prop :=
  ∃ v ∈ ts, v.kind = .attrValue ∧ v.span.stop = i ∧
    ∃ j, j + 1 = v.span.start ∧ OpensValue s ts j ∧ s[i]? = s[j]?

/-- Offset `i` lies inside of an opening tag: the tokens before it end in a tag's mark, its name
and attributes. -/
def InOpeningTag (ts : List Token) (i : Nat) : Prop :=
  ∃ before first name attrs after, ts = before ++ first :: name :: attrs ++ after ∧
    first.kind = .tagOpen ∧ name.kind = .tagName ∧ (∀ t ∈ attrs, t.kind.isAttr = true) ∧
    (∀ t ∈ before ++ first :: name :: attrs, t.span.stop ≤ i) ∧ ∀ t ∈ after, i < t.span.start

/-- **The characters that no token covers.** -/
inductive Passed (s : List Char) (ts : List Token) (i : Nat) : Prop
  | space (c : Char) (h : s[i]? = some c) (hc : isSpace c = true)
  | openingQuote (h : OpensValue s ts i)
  | closingQuote (h : ClosesValue s ts i)
  | slash (h : s[i]? = some '/') (hin : InOpeningTag ts i)

/-! ## The invariant over pieces -/

/-- **What a piece may be**, by the pieces before it and the characters after it. -/
inductive Placed (before : List Piece) : Piece → List Char → Prop
  | plain {kind : TokenKind} {cs after : List Char} (hi : kind ≠ .interpolation)
      (hc : kind ≠ .comment) (he : kind ≠ .eof) : Placed before (.plain kind cs) after
  | interpolation {inside close after : List Char}
      (h : close = ['\x7d', '\x7d'] ∨ close = [] ∧ after = []) :
      Placed before
        (.token .interpolation (stripChars inside) ('\x7b' :: '\x7b' :: inside ++ close)) after
  | comment {inside close after : List Char}
      (h : close = ['-', '-', '>'] ∨ close = [] ∧ after = []) :
      Placed before
        (.token .comment (stripChars inside) ('<' :: '!' :: '-' :: '-' :: inside ++ close)) after
  | spaces {cs after : List Char} (h : AllOf isSpace cs) : Placed before (.spaces cs) after
  | slash {after : List Char} (h : InTag (layout {} before) []) : Placed before .slash after
  | openingQuote {front : List Piece} {sp after : List Char} {q : Char}
      (h : before = front ++ [.plain .attrEquals ['='], .spaces sp]) (hsp : AllOf isSpace sp)
      (hq : isQuote q = true) : Placed before (.quote q) after
  | closingQuote {front : List Piece} {sp v after : List Char} {q : Char}
      (h : before = front ++ [.plain .attrEquals ['='], .spaces sp, .quote q, .plain .attrValue v])
      (hsp : AllOf isSpace sp) (hq : isQuote q = true) : Placed before (.quote q) after

/-- The pieces are placed, one after the other, with `before` in front and `rest` behind. -/
def Laid : List Piece → List Piece → List Char → Prop
  | _, [], _ => True
  | before, p :: ps, rest => Placed before p (written ps ++ rest) ∧ Laid (before ++ [p]) ps rest

theorem laid_append (before ps qs : List Piece) (rest : List Char) :
    Laid before (ps ++ qs) rest ↔
      Laid before ps (written qs ++ rest) ∧ Laid (before ++ ps) qs rest := by
  induction ps generalizing before with
  | nil => simp [Laid]
  | cons p ps ih => simp [Laid, ih, and_assoc]

/-- The pieces that a mode remembers: the `=` before a value, and the quote that opened it. -/
def Trail (ps : List Piece) : Mode → List Char → Prop
  | .beforeAttrValue, r => r ≠ [] → ∃ front, ps = front ++ [.plain .attrEquals ['=']]
  | .quotedValue q, _ => isQuote q = true ∧ ∃ front sp, AllOf isSpace sp ∧
      ps = front ++ [.plain .attrEquals ['='], .spaces sp, .quote q]
  | _, _ => True

theorem trail_modeAfterName (ps : List Piece) (r : List Char) : Trail ps (modeAfterName r) r := by
  unfold modeAfterName
  split <;> trivial

/-- **One reading lays its pieces.** -/
theorem Lexer.Reads.laid {before ps : List Piece} {m m' : Mode} {cs r : List Char}
    (hread : Reads m cs ps m' r) (hcs : cs ≠ []) (hreached : Reached (layout {} before) m cs)
    (htrail : Trail before m cs) : Laid before ps r ∧ Trail (before ++ ps) m' r := by
  have plain : ∀ {front : List Piece} {kind : TokenKind} {cs after : List Char},
      kind ≠ .interpolation ∧ kind ≠ .comment ∧ kind ≠ .eof →
        Placed front (.plain kind cs) after :=
    fun h => .plain h.1 h.2.1 h.2.2
  cases hread with
  | text hnone hcut => exact ⟨⟨plain (by decide), trivial⟩, trivial⟩
  | interpolation hcut =>
    exact ⟨⟨.interpolation (by simpa using (cutInterpolation_eq hcut).2), trivial⟩, trivial⟩
  | comment hcut => exact ⟨⟨.comment (by simpa using (cutComment_eq hcut).2), trivial⟩, trivial⟩
  | endTagOpen => exact ⟨⟨plain (by decide), trivial⟩, trivial⟩
  | tagOpen hc => exact ⟨⟨plain (by decide), trivial⟩, trivial⟩
  | tagName hname hr => exact ⟨⟨plain (by decide), trivial⟩, trivial⟩
  | tagUnclosed hsp => exact ⟨⟨.spaces hsp, trivial⟩, trivial⟩
  | tagClose hsp => exact ⟨⟨.spaces hsp, plain (by decide), trivial⟩, trivial⟩
  | tagSelfClose hsp => exact ⟨⟨.spaces hsp, plain (by decide), trivial⟩, trivial⟩
  | @straySlash sp r hsp hr =>
    have hin : InTag (layout {} (before ++ [.spaces sp])) [] := by
      rw [layout_append, layout_spaces, layout_nil, List.append_nil]
      exact inTag_of_not_endsTag hreached (not_endsTag_spaces hsp (not_endsTag_slash hr))
    exact ⟨⟨.spaces hsp, .slash hin, trivial⟩, trivial⟩
  | attrStart hsp hc hclose hslash => exact ⟨⟨.spaces hsp, trivial⟩, trivial⟩
  | attrNameEquals hcut =>
    exact ⟨⟨plain (by decide), plain (by decide), trivial⟩,
      fun _ => ⟨_, (List.append_assoc before [_] [_]).symm⟩⟩
  | attrName hcut hr => exact ⟨⟨plain (by decide), trivial⟩, trail_modeAfterName _ r⟩
  | lateEquals hsp =>
    exact ⟨⟨.spaces hsp, plain (by decide), trivial⟩,
      fun _ => ⟨_, (List.append_assoc before [_] [_]).symm⟩⟩
  | noEquals hsp hstop hr => exact ⟨⟨.spaces hsp, trivial⟩, trivial⟩
  | valueMissing hsp => exact ⟨⟨.spaces hsp, trivial⟩, fun h => absurd rfl h⟩
  | noValue hsp hr => exact ⟨⟨.spaces hsp, trivial⟩, trivial⟩
  | openQuote hsp hq =>
    obtain ⟨front, rfl⟩ := htrail hcs
    exact ⟨⟨.spaces hsp, .openingQuote (List.append_assoc ..) hsp hq, trivial⟩,
      hq, front, _, hsp, List.append_assoc ..⟩
  | unquoted hsp hc hq hend => exact ⟨⟨.spaces hsp, trivial⟩, trivial⟩
  | quotedValue hv =>
    obtain ⟨hq, front, sp, hsp, rfl⟩ := htrail
    exact ⟨⟨plain (by decide), .closingQuote (List.append_assoc ..) hsp hq, trivial⟩, trivial⟩
  | quotedUnclosed hv => exact ⟨⟨plain (by decide), trivial⟩, trivial⟩
  | unquotedValue hcut => exact ⟨⟨plain (by decide), trivial⟩, trivial⟩
  | endTagClosed hsp hhead hname hsp' =>
    exact ⟨⟨.spaces hsp, plain (by decide), .spaces hsp', plain (by decide), trivial⟩, trivial⟩
  | endTagUnclosed hsp hhead hname hstop hsp' hr hclose =>
    exact ⟨⟨.spaces hsp, plain (by decide), .spaces hsp', trivial⟩, trivial⟩

/-- The pieces of every scan are laid. -/
theorem Lexer.Scan.laid {source r : List Char} {ps : List Piece} {m : Mode}
    (h : Scan source ps m r) : Laid [] ps r ∧ Trail ps m r := by
  induction h with
  | start => exact ⟨trivial, trivial⟩
  | read h hcs hread ih =>
    obtain ⟨hlaid, htrail⟩ := hread.laid hcs h.reached ih.2
    refine ⟨(laid_append ..).mpr ⟨?_, hlaid⟩, htrail⟩
    rw [← hread.rest_eq]
    exact ih.1

/-! ## From pieces to offsets -/

/-- A piece with what stands before and after it. -/
theorem Laid.placed {before ps front after : List Piece} {p : Piece} {rest : List Char}
    (h : Laid before ps rest) (hps : ps = front ++ p :: after) :
    Placed (before ++ front) p (written after ++ rest) := by
  rw [hps, laid_append] at h
  exact h.2.1

/-- A token of laid-out pieces is the token of one of them. -/
theorem mem_layout {place : Cursor} {ps : List Piece} {t : Token} (h : t ∈ layout place ps) :
    ∃ front p after, ps = front ++ p :: after ∧ t ∈ p.tokens (place.skip (written front)) := by
  induction ps generalizing place with
  | nil => exact absurd h List.not_mem_nil
  | cons p ps ih =>
    rcases List.mem_append.mp h with h | h
    · exact ⟨[], p, ps, rfl, h⟩
    · obtain ⟨front, q, after, rfl, hq⟩ := ih h
      refine ⟨p :: front, q, after, rfl, ?_⟩
      rw [written_cons, Cursor.skip_append]
      exact hq

theorem span_of_mem_tokens {place : Cursor} {p : Piece} {t : Token} (h : t ∈ p.tokens place) :
    t.span.start = place.offset ∧ t.span.stop = place.offset + p.chars.length := by
  cases p with
  | token kind value chars =>
    rw [List.mem_singleton.mp h]
    exact ⟨rfl, Cursor.offset_skip place chars⟩
  | spaces cs => exact absurd h List.not_mem_nil
  | slash => exact absurd h List.not_mem_nil
  | quote q => exact absurd h List.not_mem_nil

/-- Laid-out tokens stand between the place and the end of the pieces. -/
theorem layout_bounds {place : Cursor} {ps : List Piece} {t : Token} (h : t ∈ layout place ps) :
    place.offset ≤ t.span.start ∧ t.span.start ≤ t.span.stop ∧
      t.span.stop ≤ place.offset + (written ps).length := by
  obtain ⟨front, p, after, rfl, hp⟩ := mem_layout h
  obtain ⟨hstart, hstop⟩ := span_of_mem_tokens hp
  rw [Cursor.offset_skip] at hstart hstop
  simp only [written_append, written_cons, List.length_append]
  omega

/-- Laid-out tokens do not overlap. -/
theorem layout_pairwise (place : Cursor) (ps : List Piece) :
    (layout place ps).Pairwise fun t u => t.span.stop ≤ u.span.start := by
  induction ps generalizing place with
  | nil => exact .nil
  | cons p ps ih =>
    refine List.pairwise_append.mpr ⟨?_, ih _, fun t ht u hu => ?_⟩
    · cases p with
      | token kind value chars => exact List.pairwise_singleton _ _
      | spaces cs => exact .nil
      | slash => exact .nil
      | quote q => exact .nil
    · have hstop := (span_of_mem_tokens ht).2
      have hstart := (layout_bounds hu).1
      rw [Cursor.offset_skip] at hstart
      omega

/-- The source characters of a piece. -/
theorem slice_written {ps front after : List Piece} {p : Piece} (hps : ps = front ++ p :: after) :
    slice (written ps) (written front).length ((written front).length + p.chars.length) =
      p.chars := by
  rw [slice, hps, written_append, written_cons, List.drop_left, Nat.add_sub_cancel_left,
    List.take_left]

/-- Every offset lies in one piece. -/
theorem exists_piece {ps : List Piece} {i : Nat} (h : i < (written ps).length) :
    ∃ front p after k, ps = front ++ p :: after ∧ i = (written front).length + k ∧
      k < p.chars.length := by
  induction ps generalizing i with
  | nil => exact absurd h (Nat.not_lt_zero i)
  | cons p ps ih =>
    rw [written_cons, List.length_append] at h
    by_cases hi : i < p.chars.length
    · exact ⟨[], p, ps, i, rfl, (Nat.zero_add i).symm, hi⟩
    · obtain ⟨front, q, after, k, rfl, hk, hlt⟩ := ih (i := i - p.chars.length) (by omega)
      refine ⟨p :: front, q, after, k, rfl, ?_, hlt⟩
      rw [written_cons, List.length_append]
      omega

/-- The character at an offset inside of a piece. -/
theorem getElem?_written {ps front after : List Piece} {p : Piece} (hps : ps = front ++ p :: after)
    {k : Nat} (hk : k < p.chars.length) :
    (written ps)[(written front).length + k]? = p.chars[k]? := by
  rw [hps, written_append, written_cons, List.getElem?_append_right (Nat.le_add_right _ _),
    Nat.add_sub_cancel_left, List.getElem?_append_left hk]

/-! ## Values -/

/-- A piece's token spans the piece. -/
theorem slice_of_mem_tokens {ps front after : List Piece} {p : Piece}
    (hps : ps = front ++ p :: after) {t : Token}
    (ht : t ∈ p.tokens (Cursor.skip {} (written front))) :
    slice (written ps) t.span.start t.span.stop = p.chars := by
  obtain ⟨hstart, hstop⟩ := span_of_mem_tokens ht
  rw [Cursor.offset_skip, Nat.zero_add] at hstart hstop
  rw [hstart, hstop]
  exact slice_written hps

/-- A delimited value, once its piece is known. -/
theorem delimited_of_piece {ps front after : List Piece} {kind : TokenKind} (left : List Char)
    {inside close right : List Char}
    (hps : ps = front ++ .token kind (stripChars inside) (left ++ inside ++ close) :: after)
    (hright : close = right ∨ close = [] ∧ written after = []) {t : Token}
    (ht : t ∈ (Piece.token kind (stripChars inside) (left ++ inside ++ close)).tokens
      (Cursor.skip {} (written front))) :
    t.Delimited (written ps) left right := by
  have hslice := slice_of_mem_tokens hps ht
  refine ⟨inside, ?_, ?_⟩
  · rw [List.mem_singleton.mp ht, strip, String.toList_ofList]
  · rw [hslice]
    rcases hright with rfl | ⟨rfl, hafter⟩
    · exact .inl rfl
    · refine .inr ⟨List.append_nil _, ?_⟩
      have hstop := (span_of_mem_tokens ht).2
      rw [hstop, hps, written_append, written_cons, hafter]
      simp

/-- The tokens of laid pieces are faithful to the source. -/
theorem faithful_of_laid {ps : List Piece} (h : Laid [] ps []) {t : Token}
    (ht : t ∈ layout {} ps) : t.Faithful (written ps) ∧ t.kind ≠ .eof := by
  obtain ⟨front, p, after, hps, hp⟩ := mem_layout ht
  have hplaced := h.placed hps
  rw [List.append_nil] at hplaced
  cases hplaced with
  | @plain kind cs _ hi hc he =>
    have hslice := slice_of_mem_tokens hps hp
    obtain rfl := List.mem_singleton.mp hp
    have hvalue : (String.ofList cs).toList = cs := String.toList_ofList
    refine ⟨?_, he⟩
    cases kind with
    | interpolation => exact absurd rfl hi
    | comment => exact absurd rfl hc
    | eof => exact absurd rfl he
    | _ => exact hvalue.trans hslice.symm
  | interpolation hclose =>
    have hd := delimited_of_piece ['\x7b', '\x7b'] hps hclose hp
    obtain rfl := List.mem_singleton.mp hp
    exact ⟨hd, by simp⟩
  | comment hclose =>
    have hd := delimited_of_piece ['<', '!', '-', '-'] hps hclose hp
    obtain rfl := List.mem_singleton.mp hp
    exact ⟨hd, by simp⟩
  | spaces _ => exact absurd hp List.not_mem_nil
  | slash _ => exact absurd hp List.not_mem_nil
  | openingQuote _ _ _ => exact absurd hp List.not_mem_nil
  | closingQuote _ _ _ => exact absurd hp List.not_mem_nil

/-! ## Gaps -/

theorem mem_layout_of_mem_tokens {ps front after : List Piece} {p : Piece}
    (hps : ps = front ++ p :: after) {t : Token}
    (h : t ∈ p.tokens (Cursor.skip {} (written front))) : t ∈ layout {} ps := by
  rw [hps, layout_append]
  exact List.mem_append_right _ (List.mem_append_left _ h)

/-- A slash read inside of an opening tag. -/
theorem inOpeningTag_of_inTag {front after : List Piece} {eof : Token}
    (hin : InTag (layout {} front) [])
    (heof : (written (front ++ .slash :: after)).length ≤ eof.span.start) :
    InOpeningTag (layout {} (front ++ .slash :: after) ++ [eof]) (written front).length := by
  obtain ⟨ps, first, name, attrs, hacc, -, -, -⟩ := hin
  refine ⟨phraseTokens ps, first.token .tagOpen, name.token .tagName, attrTokens (attrs ++ []),
    layout (Cursor.skip {} (written front)) (.slash :: after) ++ [eof], ?_, rfl, rfl,
    fun t ht => isAttr_of_mem_attrTokens ht, fun t ht => ?_, fun t ht => ?_⟩
  · rw [layout_append, hacc]
    simp [openingTokens]
  · have hmem : t ∈ layout {} front := by
      rw [hacc]
      exact ht
    have hstop := (layout_bounds hmem).2.2
    rwa [Nat.zero_add] at hstop
  · rw [written_append, written_cons, List.length_append, List.length_append] at heof
    rcases List.mem_append.mp ht with ht | ht
    · change t ∈ layout _ after at ht
      have hstart := (layout_bounds ht).1
      simp only [Cursor.offset_skip, List.length_cons, List.length_nil, Nat.zero_add,
        Piece.chars_slash] at hstart
      omega
    · rw [List.mem_singleton.mp ht]
      simp only [Piece.chars_slash, List.length_cons, List.length_nil] at heof
      omega

/-- The token of a plain piece, with its place. -/
theorem exists_token {ps front after : List Piece} {kind : TokenKind} {cs : List Char}
    (hps : ps = front ++ .plain kind cs :: after) :
    ∃ t ∈ layout {} ps, t.kind = kind ∧ t.span.start = (written front).length ∧
      t.span.stop = (written front).length + cs.length := by
  have hmem : (⟨kind, String.ofList cs, Span.between (Cursor.skip {} (written front))
      ((Cursor.skip {} (written front)).skip cs)⟩ : Token) ∈
        (Piece.plain kind cs).tokens (Cursor.skip {} (written front)) :=
    List.mem_singleton.mpr rfl
  obtain ⟨hstart, hstop⟩ := span_of_mem_tokens hmem
  rw [Cursor.offset_skip, Nat.zero_add] at hstart hstop
  exact ⟨_, mem_layout_of_mem_tokens hps hmem, rfl, hstart, hstop⟩

/-- The quote after an `=` and separators. -/
theorem opensValue_of_split {ps front after : List Piece} {sp : List Char} {q : Char}
    (hps : ps = front ++ .plain .attrEquals ['='] :: .spaces sp :: .quote q :: after)
    (hsp : AllOf isSpace sp) (hq : isQuote q = true) (ts : List Token) :
    OpensValue (written ps) (layout {} ps ++ ts)
      (written (front ++ [.plain .attrEquals ['='], .spaces sp])).length := by
  have hps₁ : ps = (front ++ [.plain .attrEquals ['=']]) ++ .spaces sp :: .quote q :: after := by
    rw [hps, List.append_assoc]
    rfl
  have hps₂ : ps = (front ++ [.plain .attrEquals ['='], .spaces sp]) ++ .quote q :: after := by
    rw [hps, List.append_assoc]
    rfl
  obtain ⟨e, hmem, hkind, -, hstop⟩ := exists_token hps
  have hslice := slice_written hps₁
  have hchar := getElem?_written hps₂ (k := 0) (by simp)
  have hlen₁ : (written (front ++ [.plain .attrEquals ['=']])).length = e.span.stop := by
    rw [hstop]
    simp
  have hlen₂ : (written (front ++ [.plain .attrEquals ['='], .spaces sp])).length =
      e.span.stop + sp.length := by
    rw [hstop]
    simp
    omega
  rw [hlen₁, Piece.chars_spaces, ← hlen₂] at hslice
  refine ⟨e, List.mem_append_left ts hmem, hkind, by omega, ?_, q, hchar, hq⟩
  rw [hslice]
  exact hsp

/-- The quote after a value that such a quote opens. -/
theorem closesValue_of_split {ps front after : List Piece} {sp v : List Char} {q : Char}
    (hps : ps = front ++ .plain .attrEquals ['='] :: .spaces sp :: .quote q ::
      .plain .attrValue v :: .quote q :: after)
    (hsp : AllOf isSpace sp) (hq : isQuote q = true) (ts : List Token) :
    ClosesValue (written ps) (layout {} ps ++ ts)
      (written (front ++ [.plain .attrEquals ['='], .spaces sp, .quote q,
        .plain .attrValue v])).length := by
  have hps₁ : ps = (front ++ [.plain .attrEquals ['='], .spaces sp]) ++
      .quote q :: .plain .attrValue v :: .quote q :: after := by
    rw [hps, List.append_assoc]
    rfl
  have hps₂ : ps = (front ++ [.plain .attrEquals ['='], .spaces sp, .quote q]) ++
      .plain .attrValue v :: .quote q :: after := by
    rw [hps, List.append_assoc]
    rfl
  have hps₃ : ps = (front ++ [.plain .attrEquals ['='], .spaces sp, .quote q,
      .plain .attrValue v]) ++ .quote q :: after := by
    rw [hps, List.append_assoc]
    rfl
  obtain ⟨t, hmem, hkind, hstart, hstop⟩ := exists_token hps₂
  have hopen := getElem?_written hps₁ (k := 0) (by simp)
  have hclose := getElem?_written hps₃ (k := 0) (by simp)
  refine ⟨t, List.mem_append_left ts hmem, hkind, ?_, _, ?_, opensValue_of_split hps hsp hq ts,
    hclose.trans hopen.symm⟩
  · rw [hstop]
    simp
    omega
  · rw [hstart]
    simp
    omega

/-- **No character is lost**: what no token covers is passed. -/
theorem passed_of_laid {ps : List Piece} (h : Laid [] ps []) {eof : Token}
    (heof : (written ps).length ≤ eof.span.start) {i : Nat} (hi : i < (written ps).length)
    (hfree : ∀ t ∈ layout {} ps, ¬ t.Covers i) : Passed (written ps) (layout {} ps ++ [eof]) i := by
  obtain ⟨front, p, after, k, hps, rfl, hk⟩ := exists_piece hi
  have hplaced := h.placed hps
  have hchar := getElem?_written hps hk
  -- a piece with a token covers its offsets
  have covered : ∀ t ∈ p.tokens (Cursor.skip {} (written front)), False := by
    intro t ht
    obtain ⟨hstart, hstop⟩ := span_of_mem_tokens ht
    rw [Cursor.offset_skip, Nat.zero_add] at hstart hstop
    exact hfree t (mem_layout_of_mem_tokens hps ht) ⟨by omega, by omega⟩
  cases hplaced with
  | plain _ _ _ => exact (covered _ (List.mem_singleton.mpr rfl)).elim
  | interpolation _ => exact (covered _ (List.mem_singleton.mpr rfl)).elim
  | comment _ => exact (covered _ (List.mem_singleton.mpr rfl)).elim
  | @spaces cs _ hcs =>
    have hget : cs[k]? = some cs[k] := List.getElem?_eq_getElem hk
    exact .space cs[k] (hchar.trans hget) (hcs _ (List.getElem_mem hk))
  | slash hin =>
    obtain rfl : k = 0 := by simpa using hk
    subst hps
    exact .slash hchar (inOpeningTag_of_inTag hin heof)
  | openingQuote hfront hsp hq =>
    obtain rfl : k = 0 := by simpa using hk
    rw [List.nil_append] at hfront
    rw [hfront, List.append_assoc] at hps
    rw [hfront]
    exact .openingQuote (opensValue_of_split hps hsp hq _)
  | closingQuote hfront hsp hq =>
    obtain rfl : k = 0 := by simpa using hk
    rw [List.nil_append] at hfront
    rw [hfront, List.append_assoc] at hps
    rw [hfront]
    exact .closingQuote (closesValue_of_split hps hsp hq _)

/-! ## The whole stream -/

/-- The source and its tokens agree on every character. -/
structure Lossless (s : List Char) (ts : List Token) : Prop where
  /-- The end of input is the last token and no other, and stands after the last character. -/
  ends : ∃ front eof, ts = front ++ [eof] ∧ eof.kind = .eof ∧ eof.span.start = s.length ∧
    eof.span.stop = s.length ∧ ∀ t ∈ front, t.kind ≠ .eof
  bounded : ∀ t ∈ ts, t.span.start ≤ t.span.stop ∧ t.span.stop ≤ s.length
  ordered : ts.Pairwise fun t u => t.span.stop ≤ u.span.start
  faithful : ∀ t ∈ ts, t.Faithful s
  passed : ∀ i, i < s.length → (∀ t ∈ ts, ¬ t.Covers i) → Passed s ts i

theorem lossless_of_laid {ps : List Piece} (h : Laid [] ps []) {eof : Token}
    (hkind : eof.kind = .eof) (hvalue : eof.value = "")
    (hstart : eof.span.start = (written ps).length) (hstop : eof.span.stop = (written ps).length) :
    Lossless (written ps) (layout {} ps ++ [eof]) := by
  have bounds : ∀ t ∈ layout {} ps, t.span.start ≤ t.span.stop ∧
      t.span.stop ≤ (written ps).length := by
    intro t ht
    have hb := layout_bounds ht
    rw [Nat.zero_add] at hb
    exact hb.2
  constructor
  · exact ⟨_, eof, rfl, hkind, hstart, hstop, fun t ht => (faithful_of_laid h ht).2⟩
  · intro t ht
    rcases List.mem_append.mp ht with ht | ht
    · exact bounds t ht
    · rw [List.mem_singleton.mp ht]
      omega
  · refine List.pairwise_append.mpr ⟨layout_pairwise _ _, List.pairwise_singleton _ _, ?_⟩
    intro t ht u hu
    rw [List.mem_singleton.mp hu, hstart]
    exact (bounds t ht).2
  · intro t ht
    rcases List.mem_append.mp ht with ht | ht
    · exact (faithful_of_laid h ht).1
    · rw [List.mem_singleton.mp ht]
      unfold Token.Faithful
      rw [hkind]
      exact ⟨hvalue, hstart, hstop⟩
  · intro i hi hfree
    exact passed_of_laid h (Nat.le_of_eq hstart.symm) hi
      fun t ht => hfree t (List.mem_append_left _ ht)

/-- Every source is laid out in pieces. -/
theorem exists_laid (source : String) :
    ∃ ps, Laid [] ps [] ∧ (tokenize source).tokens = layout {} ps := by
  obtain ⟨ps, m, hscan, heq⟩ := tokenize_scan source
  exact ⟨ps, hscan.laid.1, by rw [heq]⟩

/-- The end of input is no other token. -/
theorem kind_tokenize (source : String) : ∀ t ∈ (tokenize source).tokens, t.kind ≠ .eof := by
  obtain ⟨ps, hlaid, htokens⟩ := exists_laid source
  rw [htokens]
  exact fun t ht => (faithful_of_laid hlaid ht).2

/-- The tokens of a source do not overlap. -/
theorem ordered_tokenize (source : String) :
    (tokenize source).tokens.Pairwise fun t u => t.span.stop ≤ u.span.start := by
  obtain ⟨ps, -, htokens⟩ := exists_laid source
  rw [htokens]
  exact layout_pairwise _ _

/-- **The lexer loses nothing**: spans are in bounds and in order, every value is what its span
holds, and a character of no span is a separator, a quote around an attribute value or a slash
inside of an opening tag. -/
theorem tokenize_lossless (source : String) :
    Lossless source.toList (tokenize source).toList := by
  obtain ⟨ps, m, hscan, heq⟩ := tokenize_scan source
  have hsource : source.toList = written ps := by simpa using hscan.source_eq
  rw [heq, hsource]
  exact lossless_of_laid hscan.laid.1 rfl rfl (by simp [Span.between]) (by simp [Span.between])

end Trellis.Template
