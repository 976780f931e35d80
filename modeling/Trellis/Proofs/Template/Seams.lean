import Trellis.Proofs.Template.Lossless
import Trellis.Proofs.Text.Substitution

/-!
# Seams between tokens

Where one token ends and the next one starts there is a character that is part of no name: a
separator, a quote, or one of the marks of tags, attributes and interpolations.

* `Lexer.Reads.seamed`: the pieces of every reading meet at such places, and so do those of a scan.
* `exists_seams`: so there is one on both sides of every token, and a function on texts that treats
  the two sides of seams alone does to a token what it does to its characters on their own
  (`split_token`).
-/

namespace Trellis.Template

open Trellis.Text Lexer

/-- A separator, a quote, or a mark of tags, attributes and interpolations. -/
def isBorder (c : Char) : Bool :=
  isSpace c || isQuote c || "<>/=\x7b\x7d".toList.contains c

/-- A class of characters without separators, quotes and marks. -/
def Borderless (p : Char → Bool) : Prop := ∀ c, isBorder c = true → p c = false

variable {p : Char → Bool} {front r : List Char}

/-- The pieces meet at seams, with `front` before them and `rest` behind them. -/
def Seamed (p : Char → Bool) : List Char → List Piece → List Char → Prop
  | front, [], rest => Seam p front rest
  | front, q :: ps, rest =>
    Seam p front (q.chars ++ (written ps ++ rest)) ∧ Seamed p (front ++ q.chars) ps rest

theorem Seamed.append {ps qs : List Piece} (hps : Seamed p front ps (written qs ++ r))
    (hqs : Seamed p (front ++ written ps) qs r) : Seamed p front (ps ++ qs) r := by
  induction ps generalizing front with
  | nil => simpa using hqs
  | cons q ps ih =>
    refine ⟨?_, ih hps.2 (by simpa using hqs)⟩
    change Seam p front (q.chars ++ (written (ps ++ qs) ++ r))
    rw [written_append, List.append_assoc]
    exact hps.1

/-- The last seam. -/
theorem Seamed.last {ps : List Piece} (h : Seamed p front ps r) :
    Seam p (front ++ written ps) r := by
  induction ps generalizing front with
  | nil => simpa [Seamed] using h
  | cons q ps ih => simpa using ih h.2

/-- A piece has a seam before it and one behind it. -/
theorem Seamed.split {before after : List Piece} {q : Piece}
    (h : Seamed p front (before ++ q :: after) r) :
    Seam p (front ++ written before) (q.chars ++ (written after ++ r)) ∧
      Seam p (front ++ written before ++ q.chars) (written after ++ r) := by
  induction before generalizing front with
  | nil =>
    obtain ⟨hfront, hafter⟩ := h
    refine ⟨by simpa using hfront, ?_⟩
    rw [written_nil, List.append_nil]
    cases after with
    | nil => exact hafter
    | cons b after => simpa using hafter.1
  | cons b before ih => simpa using ih h.2

/-- A text that starts with a border. -/
theorem seam_head (hp : Borderless p) (h : ∀ c ∈ r.head?, isBorder c = true) : Seam p front r :=
  fun _ _ d hd _ => hp d (h d hd)

/-- A text that ends with a border. -/
theorem seam_last (hp : Borderless p) (front t : List Char) {c : Char} (hc : isBorder c = true)
    (r : List Char) : Seam p (front ++ (t ++ [c])) r := by
  rw [← List.append_assoc]
  exact seam_concat _ (hp c hc) r

theorem border_of_space {c : Char} (h : isSpace c = true) : isBorder c = true := by
  simp [isBorder, h]

theorem border_of_quote {c : Char} (h : isQuote c = true) : isBorder c = true := by
  simp [isBorder, h]

/-- Separators belong to no name, so there is a seam behind them if there is one before them. -/
theorem seam_spaces (hp : Borderless p) {sp : List Char} (hsp : AllOf isSpace sp)
    (h : Seam p front (sp ++ r)) : Seam p (front ++ sp) r := by
  rcases List.eq_nil_or_concat' sp with rfl | ⟨sp, c, rfl⟩
  · simpa using h
  · exact seam_last hp front sp (border_of_space (hsp c (by simp))) r

/-! ## Where the cuts end -/

/-- A construct starts with a mark. -/
theorem border_opening (h : r = [] ∨ (opening? r).isSome = true) :
    ∀ c ∈ r.head?, isBorder c = true := by
  rcases h with rfl | h
  · simp
  · unfold opening? at h
    split at h
    · simp; decide
    · simp; decide
    · simp; decide
    · simp; decide
    · cases h

/-- An attribute name ends at a border. -/
theorem border_cutAttrName {brackets parens : Int} {cs name : List Char}
    (h : cutAttrName brackets parens cs = (name, r)) : ∀ c ∈ r.head?, isBorder c = true := by
  induction cs generalizing brackets parens name r with
  | nil =>
    cases h
    simp
  | cons c cs ih =>
    unfold cutAttrName at h
    split at h
    · next hc =>
      cases h
      simp only [Bool.or_eq_true, beq_iff_eq] at hc
      rcases hc with (hc | rfl) | rfl
      · simpa using border_of_quote hc
      · simp; decide
      · simp; decide
    · split at h
      · next hc =>
        cases h
        simp only [Bool.or_eq_true, beq_iff_eq] at hc
        rcases hc.2.2 with (hc | rfl) | rfl
        · simpa using border_of_space hc
        · simp; decide
        · simp; decide
      · cases h
        exact ih rfl

/-- An attribute name ends at a border, or is one. -/
theorem seam_cutAttrToken (hp : Borderless p) {cs name : List Char}
    (h : cutAttrToken cs = (name, r)) : Seam p (front ++ name) r := by
  unfold cutAttrToken at h
  split at h
  · next left c rest hcut =>
    cases h
    obtain rfl : c :: r = left := cutAttrName_eq hcut
    exact seam_last hp front [] (border_cutAttrName hcut c rfl) r
  · exact seam_head hp (border_cutAttrName h)

/-- An unquoted value ends at a border. -/
theorem border_cutUnquoted {cs v : List Char} (h : cutUnquoted cs = (v, r)) :
    ∀ c ∈ r.head?, isBorder c = true := by
  fun_induction cutUnquoted cs generalizing v r with
  | case1 =>
    cases h
    simp
  | case2 cs =>
    cases h
    simp; decide
  | case3 c cs _ hc =>
    cases h
    simp only [Bool.or_eq_true, beq_iff_eq] at hc
    rcases hc with hc | rfl
    · simpa using border_of_space hc
    · simp; decide
  | case4 c cs _ hc value rest hcut ih =>
    cases h
    exact ih hcut

/-- A name ends at a border if white space and two borders are what ends it. -/
theorem border_stopsAt {a b : Char} (ha : isBorder a = true) (hb : isBorder b = true)
    (h : StopsAt (fun c => !(isSpace c || c == a || c == b)) r) :
    ∀ c ∈ r.head?, isBorder c = true := by
  intro c hc
  have hstop := h c hc
  simp only [Bool.not_eq_false', Bool.or_eq_true, beq_iff_eq] at hstop
  rcases hstop with (hc | rfl) | rfl
  · exact border_of_space hc
  · exact ha
  · exact hb

/-- The name of an opening tag ends at a border. -/
theorem border_inTagName (h : StopsAt inTagName r) : ∀ c ∈ r.head?, isBorder c = true :=
  border_stopsAt (a := '>') (b := '/') (by decide) (by decide) h

/-- The name of a closing tag ends at a border. -/
theorem border_inEndTagName (h : StopsAt inEndTagName r) : ∀ c ∈ r.head?, isBorder c = true :=
  border_stopsAt (a := '<') (b := '>') (by decide) (by decide) h

/-! ## Readings and scans -/

/-- **The pieces of a reading meet at seams.** -/
theorem Lexer.Reads.seamed {m m' : Mode} {cs : List Char} {ps : List Piece} (hp : Borderless p)
    (hread : Reads m cs ps m' r) (hquote : ∀ q, m = .quotedValue q → isQuote q = true)
    (h : Seam p front cs) : Seamed p front ps r := by
  rw [hread.rest_eq] at h
  have hmark {c : Char} {s t : List Char} (hc : isBorder c = true) : Seam p s (c :: t) :=
    seam_cons s (hp c hc) t
  cases hread with
  | text hnone hcut => exact ⟨by simpa using h, seam_head hp (border_opening (cutText_eq hcut).2)⟩
  | @interpolation _ inside close _ hcut =>
    refine ⟨by simpa using h, ?_⟩
    obtain ⟨-, rfl | ⟨-, rfl⟩⟩ := cutInterpolation_eq hcut
    · have hlast := seam_last hp front ('\x7b' :: '\x7b' :: inside ++ ['\x7d']) (c := '\x7d')
        (by decide) r
      simpa [Seamed] using hlast
    · exact seam_nil _
  | @comment _ inside close _ hcut =>
    refine ⟨by simpa using h, ?_⟩
    obtain ⟨-, rfl | ⟨-, rfl⟩⟩ := cutComment_eq hcut
    · have hlast := seam_last hp front ('<' :: '!' :: '-' :: '-' :: inside ++ ['-', '-']) (c := '>')
        (by decide) r
      simpa [Seamed] using hlast
    · exact seam_nil _
  | endTagOpen => exact ⟨by simpa using h, seam_last hp front ['<'] (by decide) r⟩
  | tagOpen hc => exact ⟨by simpa using h, seam_last hp front [] (by decide) _⟩
  | tagName hname hr => exact ⟨by simpa using h, seam_head hp (border_inTagName hr)⟩
  | tagUnclosed hsp => exact ⟨by simpa using h, seam_nil _⟩
  | tagClose hsp => exact ⟨by simpa using h, hmark (by decide), seam_last hp _ [] (by decide) _⟩
  | tagSelfClose hsp =>
    exact ⟨by simpa using h, hmark (by decide), seam_last hp _ ['/'] (by decide) _⟩
  | straySlash hsp hr =>
    exact ⟨by simpa using h, hmark (by decide), seam_last hp _ [] (by decide) _⟩
  | attrStart hsp hc hclose hslash =>
    exact ⟨by simpa using h, seam_spaces hp hsp (by simpa using h)⟩
  | attrNameEquals hcut =>
    exact ⟨by simpa using h, hmark (by decide), seam_last hp _ [] (by decide) _⟩
  | attrName hcut hr => exact ⟨by simpa using h, seam_cutAttrToken hp hcut⟩
  | lateEquals hsp => exact ⟨by simpa using h, hmark (by decide), seam_last hp _ [] (by decide) _⟩
  | noEquals hsp hstop hr => exact ⟨by simpa using h, seam_spaces hp hsp (by simpa using h)⟩
  | valueMissing hsp => exact ⟨by simpa using h, seam_nil _⟩
  | noValue hsp hr => exact ⟨by simpa using h, seam_spaces hp hsp (by simpa using h)⟩
  | openQuote hsp hq =>
    have hborder := border_of_quote hq
    exact ⟨by simpa using h, hmark hborder, seam_last hp _ [] hborder _⟩
  | unquoted hsp hc hq hend => exact ⟨by simpa using h, seam_spaces hp hsp (by simpa using h)⟩
  | @quotedValue q v r hv =>
    have hborder := border_of_quote (hquote q rfl)
    exact ⟨by simpa using h, hmark hborder, seam_last hp _ [] hborder _⟩
  | quotedUnclosed hv => exact ⟨by simpa using h, seam_nil _⟩
  | unquotedValue hcut => exact ⟨by simpa using h, seam_head hp (border_cutUnquoted hcut)⟩
  | @endTagClosed sp name sp' r hsp hhead hname hsp' =>
    have hend : ∀ c ∈ (sp' ++ '>' :: r).head?, isBorder c = true := by
      cases sp' with
      | nil => simp; decide
      | cons d sp' => simpa using border_of_space (hsp' d List.mem_cons_self)
    refine ⟨by simpa using h, ?_, ?_, hmark (by decide), seam_last hp _ [] (by decide) _⟩
    · exact seam_spaces hp hsp (by simpa using h)
    · exact seam_head hp (by simpa using hend)
  | @endTagUnclosed sp name sp' r hsp hhead hname hstop hsp' hr hclose =>
    have hend := border_inEndTagName hstop
    refine ⟨by simpa using h, ?_, seam_head hp (by simpa using hend), ?_⟩
    · exact seam_spaces hp hsp (by simpa using h)
    · exact seam_spaces hp hsp' (seam_head hp hend)

/-- The pieces of a scan meet at seams. -/
theorem Lexer.Scan.seamed {source : List Char} {ps : List Piece} {m : Mode} (hp : Borderless p)
    (h : Scan source ps m r) : Seamed p [] ps r := by
  induction h with
  | start => exact nil_seam source
  | @read ps qs m m' cs r h hcs hread ih =>
    have hquote : ∀ q, m = .quotedValue q → isQuote q = true := by
      rintro q rfl
      exact h.laid.2.1
    have hseamed := hread.seamed hp hquote ih.last
    rw [hread.rest_eq] at ih
    exact ih.append hseamed

/-- **Tokens meet at seams**: there is one before and one behind the characters of every token. -/
theorem exists_seams (hp : Borderless p) (source : String) {t : Token}
    (ht : t ∈ (tokenize source).toList) : ∃ before after,
      source.toList = before ++ (slice source.toList t.span.start t.span.stop ++ after) ∧
      before.length = t.span.start ∧
      Seam p before (slice source.toList t.span.start t.span.stop ++ after) ∧
      Seam p (before ++ slice source.toList t.span.start t.span.stop) after := by
  obtain ⟨ps, m, hscan, heq⟩ := tokenize_scan source
  have hsource : source.toList = written ps := by simpa using hscan.source_eq
  have hcursor (cs : List Char) : (Cursor.skip {} cs).offset = cs.length := by
    rw [Cursor.offset_skip, Nat.zero_add]
  rw [heq] at ht
  rcases List.mem_append.mp ht with ht | ht
  · obtain ⟨before, q, after, hps, hq⟩ := mem_layout ht
    have hseams := Seamed.split (hps ▸ hscan.seamed hp)
    rw [hsource, slice_of_mem_tokens hps hq]
    refine ⟨written before, written after, by rw [hps, written_append]; simp, ?_, ?_, ?_⟩
    · rw [(span_of_mem_tokens hq).1, hcursor]
    · simpa using hseams.1
    · simpa using hseams.2
  · -- the end of input has no characters
    obtain rfl := List.mem_singleton.mp ht
    have hslice (n : Nat) : slice source.toList n n = [] := by simp [slice]
    have hend := hslice (Cursor.skip {} source.toList).offset
    simp only [Span.between, hend]
    exact ⟨source.toList, [], by simp, (hcursor _).symm, seam_nil _, seam_nil _⟩

/-- **A function that treats the two sides of seams alone treats every token alone.** -/
theorem split_token {f : List Char → List Char} (hf : Splits p f) (hp : Borderless p)
    (source : String) {t : Token} (ht : t ∈ (tokenize source).toList) : ∃ before after,
      source.toList = before ++ (slice source.toList t.span.start t.span.stop ++ after) ∧
      before.length = t.span.start ∧
      f source.toList =
        f before ++ (f (slice source.toList t.span.start t.span.stop) ++ f after) := by
  obtain ⟨before, after, hsource, hstart, hfront, hback⟩ := exists_seams hp source ht
  refine ⟨before, after, hsource, hstart, ?_⟩
  have hafter := (hf _ _ hback.of_append).1
  have hbefore := (hf _ _ hfront).1
  rw [← hsource, hafter] at hbefore
  exact hbefore

end Trellis.Template
