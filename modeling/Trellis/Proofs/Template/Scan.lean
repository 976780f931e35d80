import Trellis.Proofs.Text.Runs
import Trellis.Template.Lexer

/-!
# What the lexer reads, piece by piece

One reading of the lexer takes a few pieces off the rest of the source: characters that a token
covers, and separators, slashes and quotes that no token covers. `Reads` lists what a reading can
take in each mode, without cursors and tokens; `layout` puts the tokens back.

* `exists_reads`, `step_of_reads`: in every mode and on every non-empty rest some reading applies,
  and it is the one that `Lexer.step` makes.
* `Scan`: the pieces read from the start of a source, with the mode and the rest they lead to.
  A fact about whole runs is an induction over `Scan`, one case for each kind of reading.
* `run_of_scan`: the run of the lexer is a scan that leaves nothing, and its tokens are the laid-out
  pieces.
-/

namespace Trellis.Template

open Trellis.Text

/-! ## Places -/

theorem Cursor.skip_append (p : Cursor) (cs ds : List Char) :
    p.skip (cs ++ ds) = (p.skip cs).skip ds :=
  List.foldl_append

theorem Cursor.offset_next (p : Cursor) (c : Char) : (p.next c).offset = p.offset + 1 := by
  unfold Cursor.next
  split <;> rfl

@[simp] theorem Cursor.offset_skip (p : Cursor) (cs : List Char) :
    (p.skip cs).offset = p.offset + cs.length := by
  induction cs generalizing p with
  | nil => rfl
  | cons c cs ih =>
    show ((p.next c).skip cs).offset = _
    rw [ih, Cursor.offset_next, List.length_cons]
    omega

namespace Lexer

/-! ## Pieces -/

/-- A stretch of source: the characters of a token with the token's kind and value, or characters
that are passed without a token. -/
inductive Piece where
  | token (kind : TokenKind) (value chars : List Char)
  | spaces (cs : List Char)
  | slash
  | quote (q : Char)

namespace Piece

/-- The source characters of a piece. -/
def chars : Piece → List Char
  | .token _ _ chars => chars
  | .spaces cs => cs
  | .slash => ['/']
  | .quote q => [q]

/-- The token of a piece that stands at `place`, if it has one. -/
def tokens (place : Cursor) : Piece → List Token
  | .token kind value chars =>
    [⟨kind, String.ofList value, Span.between place (place.skip chars)⟩]
  | _ => []

/-- The piece of a token whose value is what the source has. -/
def plain (kind : TokenKind) (chars : List Char) : Piece := .token kind chars chars

end Piece

/-- The source characters of a list of pieces. -/
def written (ps : List Piece) : List Char := ps.flatMap Piece.chars

/-- The tokens of the pieces that stand one after the other from `place` on. -/
def layout : Cursor → List Piece → List Token
  | _, [] => []
  | place, p :: ps => p.tokens place ++ layout (place.skip p.chars) ps

section Simp

variable (place : Cursor) (kind : TokenKind) (value cs : List Char) (q : Char) (ps : List Piece)

@[simp] theorem Piece.chars_plain : (Piece.plain kind cs).chars = cs := rfl

@[simp] theorem Piece.chars_token : (Piece.token kind value cs).chars = cs := rfl

@[simp] theorem Piece.chars_spaces : (Piece.spaces cs).chars = cs := rfl

@[simp] theorem Piece.chars_slash : Piece.slash.chars = ['/'] := rfl

@[simp] theorem Piece.chars_quote : (Piece.quote q).chars = [q] := rfl

@[simp] theorem layout_nil : layout place [] = [] := rfl

@[simp] theorem layout_token :
    layout place (.token kind value cs :: ps) =
      ⟨kind, String.ofList value, Span.between place (place.skip cs)⟩ ::
        layout (place.skip cs) ps := rfl

@[simp] theorem layout_plain :
    layout place (.plain kind cs :: ps) =
      ⟨kind, String.ofList cs, Span.between place (place.skip cs)⟩ ::
        layout (place.skip cs) ps := rfl

@[simp] theorem layout_spaces :
    layout place (.spaces cs :: ps) = layout (place.skip cs) ps := rfl

@[simp] theorem layout_slash : layout place (.slash :: ps) = layout (place.skip ['/']) ps := rfl

@[simp] theorem layout_quote : layout place (.quote q :: ps) = layout (place.skip [q]) ps := rfl

end Simp

@[simp] theorem written_nil : written [] = [] := rfl

@[simp] theorem written_cons (p : Piece) (ps : List Piece) :
    written (p :: ps) = p.chars ++ written ps := rfl

@[simp] theorem written_append (ps qs : List Piece) :
    written (ps ++ qs) = written ps ++ written qs :=
  List.flatMap_append

theorem layout_append (place : Cursor) (ps qs : List Piece) :
    layout place (ps ++ qs) = layout place ps ++ layout (place.skip (written ps)) qs := by
  induction ps generalizing place with
  | nil => rfl
  | cons p ps ih =>
    simp only [List.cons_append, layout, written_cons, Cursor.skip_append, ih, List.append_assoc]

/-! ## Runs of one class -/

section Runs

variable {α : Type} {p : α → Bool}

/-- Every element satisfies `p`. -/
def AllOf (p : α → Bool) (xs : List α) : Prop := ∀ x ∈ xs, p x = true

/-- The first element, if there is one, does not satisfy `p`. -/
def StopsAt (p : α → Bool) (xs : List α) : Prop := ∀ x, xs.head? = some x → p x = false

theorem stopsAt_nil (p : α → Bool) : StopsAt p [] := fun x h => by simp at h

theorem stopsAt_cons {x : α} {xs : List α} (h : p x = false) : StopsAt p (x :: xs) := by
  intro y hy
  obtain rfl : x = y := by simpa using hy
  exact h

/-- A list falls into the longest run of a class and the rest. -/
theorem exists_run (p : α → Bool) (xs : List α) :
    ∃ w r, xs = w ++ r ∧ AllOf p w ∧ StopsAt p r :=
  ⟨xs.takeWhile p, xs.dropWhile p, List.takeWhile_append_dropWhile.symm,
    fun _ hx => List.mem_takeWhile_imp hx, head?_dropWhile p xs⟩

end Runs

/-! ## One reading -/

/-- A character of the name of an opening tag. -/
def inTagName (c : Char) : Bool := !(isSpace c || c == '>' || c == '/')

/-- A character of the name of a closing tag. -/
def inEndTagName (c : Char) : Bool := !(isSpace c || c == '<' || c == '>')

/-- An opening tag ends here. -/
def EndsTag (cs : List Char) : Prop := ∃ r, cs = '>' :: r ∨ cs = '/' :: '>' :: r

/-- The mode after an attribute name that no `=` follows directly. -/
def modeAfterName (r : List Char) : Mode :=
  if (r.head?.map isSpace).getD false then .afterAttrName else .beforeAttrName

/-- **What one reading can take**: the mode and the rest before it, the pieces it takes, and the
mode and the rest after it. -/
inductive Reads : Mode → List Char → List Piece → Mode → List Char → Prop
  | text {c : Char} {cs t r : List Char} (hnone : opening? (c :: cs) = none)
      (hcut : cutText cs = (t, r)) :
      Reads .data (c :: cs) [.plain .text (c :: t)] .data r
  | interpolation {cs inside close r : List Char}
      (hcut : cutInterpolation 1 cs = (inside, close, r)) :
      Reads .data ('\x7b' :: '\x7b' :: cs)
        [.token .interpolation (stripChars inside) ('\x7b' :: '\x7b' :: inside ++ close)] .data r
  | comment {cs inside close r : List Char} (hcut : cutComment cs = (inside, close, r)) :
      Reads .data ('<' :: '!' :: '-' :: '-' :: cs)
        [.token .comment (stripChars inside) ('<' :: '!' :: '-' :: '-' :: inside ++ close)] .data r
  | endTagOpen {cs : List Char} :
      Reads .data ('<' :: '/' :: cs) [.plain .tagEndOpen ['<', '/']] .endTagName cs
  | tagOpen {c : Char} {cs : List Char} (hc : isLetter c = true) :
      Reads .data ('<' :: c :: cs) [.plain .tagOpen ['<']] .tagName (c :: cs)
  | tagName {name r : List Char} (hname : AllOf inTagName name) (hr : StopsAt inTagName r) :
      Reads .tagName (name ++ r) [.plain .tagName name] .beforeAttrName r
  | tagUnclosed {sp : List Char} (hsp : AllOf isSpace sp) :
      Reads .beforeAttrName sp [.spaces sp] .beforeAttrName []
  | tagClose {sp r : List Char} (hsp : AllOf isSpace sp) :
      Reads .beforeAttrName (sp ++ '>' :: r) [.spaces sp, .plain .tagClose ['>']] .data r
  | tagSelfClose {sp r : List Char} (hsp : AllOf isSpace sp) :
      Reads .beforeAttrName (sp ++ '/' :: '>' :: r)
        [.spaces sp, .plain .tagSelfClose ['/', '>']] .data r
  | straySlash {sp r : List Char} (hsp : AllOf isSpace sp) (hr : r.head? ≠ some '>') :
      Reads .beforeAttrName (sp ++ '/' :: r) [.spaces sp, .slash] .beforeAttrName r
  | attrStart {sp : List Char} {c : Char} {r : List Char} (hsp : AllOf isSpace sp)
      (hc : isSpace c = false) (hclose : c ≠ '>') (hslash : c ≠ '/') :
      Reads .beforeAttrName (sp ++ c :: r) [.spaces sp] .attrName (c :: r)
  | attrNameEquals {cs name r : List Char} (hcut : cutAttrToken cs = (name, '=' :: r)) :
      Reads .attrName cs [.plain .attrName name, .plain .attrEquals ['=']] .beforeAttrValue r
  | attrName {cs name r : List Char} (hcut : cutAttrToken cs = (name, r))
      (hr : r.head? ≠ some '=') :
      Reads .attrName cs [.plain .attrName name] (modeAfterName r) r
  | lateEquals {sp r : List Char} (hsp : AllOf isSpace sp) :
      Reads .afterAttrName (sp ++ '=' :: r) [.spaces sp, .plain .attrEquals ['=']]
        .beforeAttrValue r
  | noEquals {sp r : List Char} (hsp : AllOf isSpace sp) (hstop : StopsAt isSpace r)
      (hr : r.head? ≠ some '=') :
      Reads .afterAttrName (sp ++ r) [.spaces sp] .beforeAttrName r
  | valueMissing {sp : List Char} (hsp : AllOf isSpace sp) :
      Reads .beforeAttrValue sp [.spaces sp] .beforeAttrValue []
  | noValue {sp r : List Char} (hsp : AllOf isSpace sp) (hr : EndsTag r) :
      Reads .beforeAttrValue (sp ++ r) [.spaces sp] .beforeAttrName r
  | openQuote {sp : List Char} {q : Char} {r : List Char} (hsp : AllOf isSpace sp)
      (hq : isQuote q = true) :
      Reads .beforeAttrValue (sp ++ q :: r) [.spaces sp, .quote q] (.quotedValue q) r
  | unquoted {sp : List Char} {c : Char} {r : List Char} (hsp : AllOf isSpace sp)
      (hc : isSpace c = false) (hq : isQuote c = false) (hend : ¬ EndsTag (c :: r)) :
      Reads .beforeAttrValue (sp ++ c :: r) [.spaces sp] .unquotedValue (c :: r)
  | quotedValue {q : Char} {v r : List Char} (hv : q ∉ v) :
      Reads (.quotedValue q) (v ++ q :: r) [.plain .attrValue v, .quote q] .beforeAttrName r
  | quotedUnclosed {q : Char} {v : List Char} (hv : q ∉ v) :
      Reads (.quotedValue q) v [.plain .attrValue v] .beforeAttrName []
  | unquotedValue {cs v r : List Char} (hcut : cutUnquoted cs = (v, r)) :
      Reads .unquotedValue cs [.plain .attrValue v] .beforeAttrName r
  | endTagClosed {sp name sp' r : List Char} (hsp : AllOf isSpace sp)
      (hhead : StopsAt isSpace (name ++ (sp' ++ '>' :: r))) (hname : AllOf inEndTagName name)
      (hsp' : AllOf isSpace sp') :
      Reads .endTagName (sp ++ (name ++ (sp' ++ '>' :: r)))
        [.spaces sp, .plain .tagName name, .spaces sp', .plain .tagClose ['>']] .data r
  | endTagUnclosed {sp name sp' r : List Char} (hsp : AllOf isSpace sp)
      (hhead : StopsAt isSpace (name ++ (sp' ++ r))) (hname : AllOf inEndTagName name)
      (hstop : StopsAt inEndTagName (sp' ++ r)) (hsp' : AllOf isSpace sp')
      (hr : StopsAt isSpace r) (hclose : r.head? ≠ some '>') :
      Reads .endTagName (sp ++ (name ++ (sp' ++ r)))
        [.spaces sp, .plain .tagName name, .spaces sp'] .data r

/-! ## Some reading always applies -/

theorem reads_data {cs : List Char} (h : cs ≠ []) : ∃ ps m r, Reads .data cs ps m r := by
  obtain ⟨c, cs, rfl⟩ := List.exists_cons_of_ne_nil h
  cases ho : opening? (c :: cs) with
  | none => exact ⟨_, _, _, .text ho rfl⟩
  | some o =>
    unfold opening? at ho
    split at ho
    · rename_i hcs
      rw [hcs]
      exact ⟨_, _, _, .interpolation rfl⟩
    · rename_i hcs
      rw [hcs]
      exact ⟨_, _, _, .comment rfl⟩
    · rename_i hcs
      rw [hcs]
      exact ⟨_, _, _, .endTagOpen⟩
    · rename_i hcs
      rw [hcs]
      split at ho
      · exact ⟨_, _, _, .tagOpen ‹_›⟩
      · exact absurd ho (by simp)
    · exact absurd ho (by simp)

theorem reads_beforeAttrName (cs : List Char) : ∃ ps m r, Reads .beforeAttrName cs ps m r := by
  obtain ⟨sp, r, rfl, hsp, hr⟩ := exists_run isSpace cs
  cases r with
  | nil => exact ⟨_, _, _, by simpa using Reads.tagUnclosed hsp⟩
  | cons c r =>
    by_cases hclose : c = '>'
    · rw [hclose]
      exact ⟨_, _, _, .tagClose hsp⟩
    · by_cases hslash : c = '/'
      · rw [hslash]
        by_cases hself : r.head? = some '>'
        · obtain ⟨r, rfl⟩ := List.head?_eq_some_iff.mp hself
          exact ⟨_, _, _, .tagSelfClose hsp⟩
        · exact ⟨_, _, _, .straySlash hsp hself⟩
      · exact ⟨_, _, _, .attrStart hsp (hr c rfl) hclose hslash⟩

theorem reads_attrName (cs : List Char) : ∃ ps m r, Reads .attrName cs ps m r := by
  by_cases he : (cutAttrToken cs).2.head? = some '='
  · obtain ⟨r, hr⟩ := List.head?_eq_some_iff.mp he
    exact ⟨_, _, _, .attrNameEquals (Prod.ext rfl hr)⟩
  · exact ⟨_, _, _, .attrName rfl he⟩

theorem reads_afterAttrName (cs : List Char) : ∃ ps m r, Reads .afterAttrName cs ps m r := by
  obtain ⟨sp, r, rfl, hsp, hr⟩ := exists_run isSpace cs
  by_cases he : r.head? = some '='
  · obtain ⟨r, rfl⟩ := List.head?_eq_some_iff.mp he
    exact ⟨_, _, _, .lateEquals hsp⟩
  · exact ⟨_, _, _, .noEquals hsp hr he⟩

theorem reads_beforeAttrValue (cs : List Char) : ∃ ps m r, Reads .beforeAttrValue cs ps m r := by
  obtain ⟨sp, r, rfl, hsp, hr⟩ := exists_run isSpace cs
  cases r with
  | nil => exact ⟨_, _, _, by simpa using Reads.valueMissing hsp⟩
  | cons c r =>
    by_cases hq : isQuote c = true
    · exact ⟨_, _, _, .openQuote hsp hq⟩
    · by_cases hend : EndsTag (c :: r)
      · exact ⟨_, _, _, .noValue hsp hend⟩
      · exact ⟨_, _, _, .unquoted hsp (hr c rfl) (by simpa using hq) hend⟩

theorem reads_quotedValue (q : Char) (cs : List Char) :
    ∃ ps m r, Reads (.quotedValue q) cs ps m r := by
  by_cases hq : q ∈ cs
  · obtain ⟨v, r, rfl, hv⟩ := List.eq_append_cons_of_mem hq
    exact ⟨_, _, _, .quotedValue hv⟩
  · exact ⟨_, _, _, .quotedUnclosed hq⟩

theorem reads_endTagName (cs : List Char) : ∃ ps m r, Reads .endTagName cs ps m r := by
  obtain ⟨sp, rest, rfl, hsp, hhead⟩ := exists_run isSpace cs
  obtain ⟨name, rest, rfl, hname, hstop⟩ := exists_run inEndTagName rest
  obtain ⟨sp', r, rfl, hsp', hr⟩ := exists_run isSpace rest
  by_cases hclose : r.head? = some '>'
  · obtain ⟨r, rfl⟩ := List.head?_eq_some_iff.mp hclose
    exact ⟨_, _, _, .endTagClosed hsp hhead hname hsp'⟩
  · exact ⟨_, _, _, .endTagUnclosed hsp hhead hname hstop hsp' hr hclose⟩

/-- In every mode some reading applies to a non-empty rest. -/
theorem exists_reads (m : Mode) {cs : List Char} (h : cs ≠ []) :
    ∃ ps m' r, Reads m cs ps m' r := by
  cases m with
  | data => exact reads_data h
  | tagName =>
    obtain ⟨name, r, rfl, hname, hr⟩ := exists_run inTagName cs
    exact ⟨_, _, _, .tagName hname hr⟩
  | beforeAttrName => exact reads_beforeAttrName cs
  | attrName => exact reads_attrName cs
  | afterAttrName => exact reads_afterAttrName cs
  | beforeAttrValue => exact reads_beforeAttrValue cs
  | quotedValue q => exact reads_quotedValue q cs
  | unquotedValue => exact ⟨_, _, _, .unquotedValue rfl⟩
  | endTagName => exact reads_endTagName cs

/-! ## The reading is the lexer's step -/

theorem skipSpace_run {m : Mode} {place : Cursor} {sp r : List Char} (hsp : AllOf isSpace sp)
    (hr : StopsAt isSpace r) :
    (Lexer.mk m place (sp ++ r)).skipSpace = ⟨m, place.skip sp, r⟩ := by
  simp only [skipSpace, move, takeWhile_run hsp hr, dropWhile_run hsp hr]

theorem skipSpace_all {m : Mode} {place : Cursor} {sp : List Char} (hsp : AllOf isSpace sp) :
    (Lexer.mk m place sp).skipSpace = ⟨m, place.skip sp, []⟩ := by
  simpa using skipSpace_run (r := []) hsp (stopsAt_nil _)

theorem not_inEndTagName_of_isSpace {c : Char} (h : isSpace c = true) : inEndTagName c = false := by
  simp [inEndTagName, h]

/-- The name of a closing tag ends where separators and a `>` follow. -/
theorem stopsAt_close {sp r : List Char} (hsp : AllOf isSpace sp) :
    StopsAt inEndTagName (sp ++ '>' :: r) := by
  cases sp with
  | nil => exact stopsAt_cons (by decide)
  | cons c sp => exact stopsAt_cons (not_inEndTagName_of_isSpace (hsp c List.mem_cons_self))

/-- A letter after `<` opens a tag. -/
theorem opening?_letter {c : Char} {cs : List Char} (hc : isLetter c = true) :
    opening? ('<' :: c :: cs) = some .tag := by
  have hbang : c ≠ '!' := fun h => absurd (h ▸ hc) (by decide)
  have hslash : c ≠ '/' := fun h => absurd (h ▸ hc) (by decide)
  unfold opening?
  split <;> simp_all

theorem readData_of_reads {cs r : List Char} {ps : List Piece} {m : Mode}
    (h : Reads .data cs ps m r) (place : Cursor) :
    (Lexer.mk .data place cs).readData = (layout place ps, ⟨m, place.skip (written ps), r⟩) := by
  cases h with
  | text hnone hcut =>
    simp [readData, hnone, hcut, token, move]
  | interpolation hcut =>
    simp [readData, opening?, hcut, token, move]
  | comment hcut =>
    simp [readData, opening?, hcut, token, move]
  | endTagOpen =>
    simp [readData, opening?, token, move]
  | tagOpen hc =>
    simp [readData, opening?_letter hc, token, move]

theorem readBeforeAttrName_of_reads {cs r : List Char} {ps : List Piece} {m : Mode}
    (h : Reads .beforeAttrName cs ps m r) (place : Cursor) :
    (Lexer.mk .beforeAttrName place cs).readBeforeAttrName =
      (layout place ps, ⟨m, place.skip (written ps), r⟩) := by
  unfold readBeforeAttrName
  cases h with
  | tagUnclosed hsp =>
    simp [skipSpace_all hsp]
  | tagClose hsp =>
    rw [skipSpace_run hsp (stopsAt_cons (by decide))]
    simp [token, move, Cursor.skip_append]
  | tagSelfClose hsp =>
    rw [skipSpace_run hsp (stopsAt_cons (by decide))]
    simp [token, move, Cursor.skip_append]
  | straySlash hsp hr =>
    rw [skipSpace_run hsp (stopsAt_cons (by decide))]
    dsimp only
    split <;> simp_all [move, Cursor.skip_append]
  | attrStart hsp hc hclose hslash =>
    rw [skipSpace_run hsp (stopsAt_cons hc)]
    dsimp only
    split <;> simp_all

theorem readEquals_of_head {m m' : Mode} {place : Cursor} {r : List Char}
    (h : r.head? ≠ some '=') : (Lexer.mk m place r).readEquals m' = ([], ⟨m', place, r⟩) := by
  unfold readEquals
  split <;> simp_all

theorem readAttrName_of_reads {cs r : List Char} {ps : List Piece} {m : Mode}
    (h : Reads .attrName cs ps m r) (place : Cursor) :
    (Lexer.mk .attrName place cs).readAttrName =
      (layout place ps, ⟨m, place.skip (written ps), r⟩) := by
  cases h with
  | attrNameEquals hcut =>
    simp [readAttrName, hcut, readEquals, token, move, Cursor.skip_append]
  | attrName hcut hr =>
    simp only [readAttrName, hcut, move, readEquals_of_head hr]
    simp [token, modeAfterName]

theorem readAfterAttrName_of_reads {cs r : List Char} {ps : List Piece} {m : Mode}
    (h : Reads .afterAttrName cs ps m r) (place : Cursor) :
    (Lexer.mk .afterAttrName place cs).readAfterAttrName =
      (layout place ps, ⟨m, place.skip (written ps), r⟩) := by
  unfold readAfterAttrName
  cases h with
  | lateEquals hsp =>
    rw [skipSpace_run hsp (stopsAt_cons (by decide))]
    simp [readEquals, token, move,
      Cursor.skip_append]
  | noEquals hsp hstop hr =>
    rw [skipSpace_run hsp hstop, readEquals_of_head hr]
    simp

theorem readBeforeAttrValue_of_reads {cs r : List Char} {ps : List Piece} {m : Mode}
    (h : Reads .beforeAttrValue cs ps m r) (place : Cursor) :
    (Lexer.mk .beforeAttrValue place cs).readBeforeAttrValue =
      (layout place ps, ⟨m, place.skip (written ps), r⟩) := by
  unfold readBeforeAttrValue
  cases h with
  | valueMissing hsp => simp [skipSpace_all hsp]
  | noValue hsp hr =>
    obtain ⟨r, rfl | rfl⟩ := hr
    · rw [skipSpace_run hsp (stopsAt_cons (by decide))]
      simp
    · rw [skipSpace_run hsp (stopsAt_cons (by decide))]
      simp
  | @openQuote sp q r hsp hq =>
    have hs : isSpace q = false := by
      simp only [isQuote, Bool.or_eq_true, beq_iff_eq] at hq
      rcases hq with rfl | rfl <;> decide
    rw [skipSpace_run hsp (stopsAt_cons hs)]
    simp only [isQuote, Bool.or_eq_true, beq_iff_eq] at hq
    rcases hq with rfl | rfl <;>
      simp [isQuote, move, Cursor.skip_append]
  | unquoted hsp hc hq hend =>
    rw [skipSpace_run hsp (stopsAt_cons hc)]
    dsimp only
    split <;> simp_all [EndsTag]

theorem readQuotedValue_of_reads {q : Char} {cs r : List Char} {ps : List Piece} {m : Mode}
    (h : Reads (.quotedValue q) cs ps m r) (place : Cursor) :
    (Lexer.mk (.quotedValue q) place cs).readQuotedValue q =
      (layout place ps, ⟨m, place.skip (written ps), r⟩) := by
  unfold readQuotedValue
  cases h with
  | quotedValue hv =>
    have hquote {s : List Char} : StopsAt (· != q) (q :: s) := stopsAt_cons (bne_self_eq_false q)
    simp [takeWhile_run (forall_bne hv) hquote, dropWhile_run (forall_bne hv) hquote, token, move]
  | quotedUnclosed hv =>
    have ht : cs.takeWhile (· != q) = cs := List.takeWhile_eq_self_iff.mpr (forall_bne hv)
    have hd : cs.dropWhile (· != q) = [] := List.dropWhile_eq_nil_iff.mpr (forall_bne hv)
    simp [ht, hd, token, move]

theorem readEndTagName_of_reads {cs r : List Char} {ps : List Piece} {m : Mode}
    (h : Reads .endTagName cs ps m r) (place : Cursor) :
    (Lexer.mk .endTagName place cs).readEndTagName =
      (layout place ps, ⟨m, place.skip (written ps), r⟩) := by
  unfold readEndTagName
  cases h with
  | endTagClosed hsp hhead hname hsp' =>
    have ht := takeWhile_run hname (stopsAt_close (r := r) hsp')
    have hd := dropWhile_run hname (stopsAt_close (r := r) hsp')
    unfold inEndTagName at ht hd
    rw [skipSpace_run hsp hhead]
    simp only [ht, hd, move]
    rw [skipSpace_run hsp' (stopsAt_cons (by decide))]
    simp [token, Cursor.skip_append]
  | endTagUnclosed hsp hhead hname hstop hsp' hr hclose =>
    have ht := takeWhile_run hname hstop
    have hd := dropWhile_run hname hstop
    unfold inEndTagName at ht hd
    rw [skipSpace_run hsp hhead]
    simp only [ht, hd, move]
    rw [skipSpace_run hsp' hr]
    split
    · rename_i hcs
      exact absurd (congrArg List.head? hcs) hclose
    · simp [token, Cursor.skip_append]

/-- **The lexer's step is the reading**: its tokens are the laid-out pieces, and it ends after
their characters. -/
theorem step_of_reads {m m' : Mode} {cs r : List Char} {ps : List Piece} (h : Reads m cs ps m' r)
    (place : Cursor) :
    (Lexer.mk m place cs).step = (layout place ps, ⟨m', place.skip (written ps), r⟩) := by
  unfold step
  cases m with
  | data => exact readData_of_reads h place
  | tagName =>
    cases h with
    | tagName hname hr =>
      have ht := takeWhile_run hname hr
      have hd := dropWhile_run hname hr
      unfold inTagName at ht hd
      simp only [readTagName, ht, hd, token, move]
      simp
  | beforeAttrName => exact readBeforeAttrName_of_reads h place
  | attrName => exact readAttrName_of_reads h place
  | afterAttrName => exact readAfterAttrName_of_reads h place
  | beforeAttrValue => exact readBeforeAttrValue_of_reads h place
  | quotedValue q => exact readQuotedValue_of_reads h place
  | unquotedValue =>
    cases h with
    | unquotedValue hcut =>
      simp [readUnquotedValue, hcut, token, move]
  | endTagName => exact readEndTagName_of_reads h place

/-! ## What the cuts give -/

/-- A stretch of text and what is left make up the source, and what is left opens a construct. -/
theorem cutText_eq {cs t r : List Char} (h : cutText cs = (t, r)) :
    cs = t ++ r ∧ (r = [] ∨ (opening? r).isSome = true) := by
  induction cs generalizing t r with
  | nil =>
    cases h
    exact ⟨rfl, .inl rfl⟩
  | cons c cs ih =>
    unfold cutText at h
    split at h
    · rename_i ho
      cases h
      exact ⟨rfl, .inr ho⟩
    · cases h
      obtain ⟨heq, hr⟩ := ih rfl
      exact ⟨congrArg (c :: ·) heq, hr⟩

/-- An interpolation reaches its closing braces or the end of the source. -/
theorem cutInterpolation_eq {depth : Nat} {cs inside close r : List Char}
    (h : cutInterpolation depth cs = (inside, close, r)) :
    cs = inside ++ (close ++ r) ∧ (close = ['\x7d', '\x7d'] ∨ close = [] ∧ r = []) := by
  fun_induction cutInterpolation depth cs generalizing inside close r with
  | case1 =>
    cases h
    exact ⟨rfl, .inr ⟨rfl, rfl⟩⟩
  | case2 depth cs inside' close' rest' hcut ih =>
    cases h
    obtain ⟨heq, hc⟩ := ih hcut
    exact ⟨congrArg ('\x7b' :: '\x7b' :: ·) heq, hc⟩
  | case3 depth cs hd =>
    cases h
    exact ⟨rfl, .inl rfl⟩
  | case4 depth cs hd inside' close' rest' hcut ih =>
    cases h
    obtain ⟨heq, hc⟩ := ih hcut
    exact ⟨congrArg ('\x7d' :: '\x7d' :: ·) heq, hc⟩
  | case5 depth c cs _ _ inside' close' rest' hcut ih =>
    cases h
    obtain ⟨heq, hc⟩ := ih hcut
    exact ⟨congrArg (c :: ·) heq, hc⟩

/-- A comment reaches its closing mark or the end of the source. -/
theorem cutComment_eq {cs inside close r : List Char} (h : cutComment cs = (inside, close, r)) :
    cs = inside ++ (close ++ r) ∧ (close = ['-', '-', '>'] ∨ close = [] ∧ r = []) := by
  fun_induction cutComment cs generalizing inside close r with
  | case1 =>
    cases h
    exact ⟨rfl, .inr ⟨rfl, rfl⟩⟩
  | case2 cs =>
    cases h
    exact ⟨rfl, .inl rfl⟩
  | case3 c cs _ inside' close' rest' hcut ih =>
    cases h
    obtain ⟨heq, hc⟩ := ih hcut
    exact ⟨congrArg (c :: ·) heq, hc⟩

theorem cutAttrName_eq {brackets parens : Int} {cs name r : List Char}
    (h : cutAttrName brackets parens cs = (name, r)) : cs = name ++ r := by
  induction cs generalizing brackets parens name r with
  | nil =>
    cases h
    rfl
  | cons c cs ih =>
    unfold cutAttrName at h
    split at h
    · cases h
      rfl
    · split at h
      · cases h
        rfl
      · cases h
        exact congrArg (c :: ·) (ih rfl)

theorem cutAttrToken_eq {cs name r : List Char} (h : cutAttrToken cs = (name, r)) :
    cs = name ++ r := by
  unfold cutAttrToken at h
  split at h
  · cases h
    rfl
  · exact cutAttrName_eq h

theorem cutUnquoted_eq {cs v r : List Char} (h : cutUnquoted cs = (v, r)) : cs = v ++ r := by
  fun_induction cutUnquoted cs generalizing v r with
  | case1 =>
    cases h
    rfl
  | case2 cs =>
    cases h
    rfl
  | case3 c cs _ hc =>
    cases h
    rfl
  | case4 c cs _ hc value rest hcut ih =>
    cases h
    exact congrArg (c :: ·) (ih hcut)

/-- A reading takes its pieces off the rest. -/
theorem Reads.rest_eq {m m' : Mode} {cs r : List Char} {ps : List Piece}
    (h : Reads m cs ps m' r) : cs = written ps ++ r := by
  cases h with
  | text hnone hcut => simp [← (cutText_eq hcut).1]
  | interpolation hcut => simp [← (cutInterpolation_eq hcut).1]
  | comment hcut => simp [← (cutComment_eq hcut).1]
  | attrNameEquals hcut => simp [cutAttrToken_eq hcut]
  | attrName hcut => simp [← cutAttrToken_eq hcut]
  | unquotedValue hcut => simp [← cutUnquoted_eq hcut]
  | _ => simp

/-! ## Scans -/

/-- **What the lexer can have read** of a source: the pieces so far, and the mode and the rest it
is left with. -/
inductive Scan (source : List Char) : List Piece → Mode → List Char → Prop
  | start : Scan source [] .data source
  | read {ps qs : List Piece} {m m' : Mode} {cs r : List Char} (h : Scan source ps m cs)
      (hcs : cs ≠ []) (hread : Reads m cs qs m' r) : Scan source (ps ++ qs) m' r

/-- The pieces read and the rest make up the source. -/
theorem Scan.source_eq {source r : List Char} {ps : List Piece} {m : Mode}
    (h : Scan source ps m r) : source = written ps ++ r := by
  induction h with
  | start => rfl
  | read h hcs hread ih => rw [ih, hread.rest_eq, written_append, List.append_assoc]

/-- Every piece of a scan was found by one of its readings. -/
theorem Scan.exists_reads {source r : List Char} {ps : List Piece} {m : Mode}
    (h : Scan source ps m r) {p : Piece} (hp : p ∈ ps) :
    ∃ before cs qs after rest, cs ≠ [] ∧ Reads before cs qs after rest ∧ p ∈ qs := by
  induction h with
  | start => exact absurd hp List.not_mem_nil
  | read h hcs hread ih =>
    rcases List.mem_append.mp hp with hp | hp
    · exact ih hp
    · exact ⟨_, _, _, _, _, hcs, hread, hp⟩

/-- The lexer's run goes on with a scan until nothing is left. -/
theorem run_of_scan (source : List Char) {ps : List Piece} (l : Lexer)
    (h : Scan source ps l.mode l.rest) :
    ∃ qs m, Scan source (ps ++ qs) m [] ∧
      l.run = (layout l.cursor qs, l.cursor.skip (written qs)) := by
  fun_induction run l generalizing ps with
  | case1 l hl =>
    refine ⟨[], l.mode, ?_, rfl⟩
    rw [List.append_nil, ← hl]
    exact h
  | case2 l hl later place hrun ih =>
    obtain ⟨ps₁, m, r, hread⟩ := exists_reads l.mode hl
    have hstep : l.step = _ := step_of_reads hread l.cursor
    have hscan : Scan source (ps ++ ps₁) l.step.2.mode l.step.2.rest := by
      rw [hstep]
      exact h.read hl hread
    obtain ⟨qs, m', hqs, hlater⟩ := ih hscan
    rw [hrun, hstep] at hlater
    refine ⟨ps₁ ++ qs, m', by rw [← List.append_assoc]; exact hqs, ?_⟩
    cases hlater
    rw [hstep, layout_append, written_append, Cursor.skip_append]

/-- **The tokens of a source are the laid-out pieces of a whole scan**, and the end of input stands
after its last character. -/
theorem tokenize_scan (source : String) :
    ∃ ps m, Scan source.toList ps m [] ∧
      tokenize source = ⟨layout {} ps, ⟨.eof, "",
        Span.between (Cursor.skip {} source.toList) (Cursor.skip {} source.toList)⟩⟩ := by
  obtain ⟨ps, m, hscan, hrun⟩ := run_of_scan source.toList (start source) .start
  refine ⟨ps, m, hscan, ?_⟩
  have hsource : source.toList = written ps := by simpa using hscan.source_eq
  unfold tokenize
  rw [hrun, hsource]
  rfl

end Lexer

end Trellis.Template
