import Trellis.Proofs.Text.Runs
import Trellis.Proofs.Text.Segments
import Trellis.Text.Lines

/-!
# Rewriting line by line

Removing a margin and putting one in rewrites each line of a text at its start.

* `relines` rewrites all lines, `relinesInside` all but the first.
* `Shifts` says that a line is only changed in the white space at its start.
* `dedentChars_eq`, `indent_eq`: both ways of moving a text are such a rewriting, the second one
  after all line ends have become line feeds (`plainBreaks`).
* `sharedMargin_isPrefix`: the margin that lines share is at the start of each line with content, so
  that removing it shifts the line (`shifts_dedentLine`).
-/

namespace Trellis.Text

variable {f : List Char → List Char} {l run cs : List Char}

/-! ## Lines -/

/-- The text with each line rewritten. -/
def relines (f : List Char → List Char) (cs : List Char) : List Char :=
  ['\n'].intercalate ((splitAtEach (· == '\n') cs).map f)

/-- The text with each line but the first rewritten. -/
def relinesInside (f : List Char → List Char) (cs : List Char) : List Char :=
  let lines := splitAtEach (· == '\n') cs
  ['\n'].intercalate (lines.take 1 ++ (lines.drop 1).map f)

theorem feedless_iff : (∀ c ∈ l, (c == '\n') = false) ↔ '\n' ∉ l := by
  simp only [beq_eq_false_iff_ne]
  exact ⟨fun h hmem => h _ hmem rfl, fun h c hc heq => h (heq ▸ hc)⟩

theorem splitAtEach_feed (run : List Char) (hl : '\n' ∉ l) :
    splitAtEach (· == '\n') (l ++ '\n' :: run) = l :: splitAtEach (· == '\n') run :=
  splitAtEach_line run (feedless_iff.mpr hl) rfl

theorem splitAtEach_feedless (hl : '\n' ∉ l) : splitAtEach (· == '\n') l = [l] :=
  splitAtEach_last (feedless_iff.mpr hl)

/-- A text is its last line, or a line before a line feed and the rest. -/
theorem feeds_induction {P : List Char → Prop} (last : ∀ l, '\n' ∉ l → P l)
    (line : ∀ l run, '\n' ∉ l → P run → P (l ++ '\n' :: run)) (run : List Char) : P run := by
  induction run using lines_induction (p := (· == '\n')) with
  | last l hl => exact last l (feedless_iff.mp hl)
  | line l b run hl hb ih =>
    obtain rfl : b = '\n' := by simpa using hb
    exact line l run (feedless_iff.mp hl) ih

theorem relines_last (f : List Char → List Char) (hl : '\n' ∉ l) : relines f l = f l := by
  rw [relines, splitAtEach_feedless hl, List.map_singleton, List.intercalate_singleton]

theorem relines_line (f : List Char → List Char) (hl : '\n' ∉ l) (run : List Char) :
    relines f (l ++ '\n' :: run) = f l ++ '\n' :: relines f run := by
  obtain ⟨m, rest, hrest⟩ := List.exists_cons_of_ne_nil (splitAtEach_ne_nil (· == '\n') run)
  rw [relines, relines, splitAtEach_feed run hl, List.map_cons, hrest, List.map_cons,
    List.intercalate_cons_cons, List.append_assoc]
  rfl

theorem relinesInside_last (f : List Char → List Char) (hl : '\n' ∉ l) :
    relinesInside f l = l := by
  rw [relinesInside, splitAtEach_feedless hl]
  exact List.intercalate_singleton

theorem relinesInside_line (f : List Char → List Char) (hl : '\n' ∉ l) (run : List Char) :
    relinesInside f (l ++ '\n' :: run) = l ++ '\n' :: relines f run := by
  obtain ⟨m, rest, hrest⟩ := List.exists_cons_of_ne_nil (splitAtEach_ne_nil (· == '\n') run)
  rw [relinesInside, relines, splitAtEach_feed run hl, hrest]
  change ['\n'].intercalate (l :: f m :: rest.map f) = _
  rw [List.intercalate_cons_cons, List.append_assoc, List.map_cons]
  rfl

theorem relines_append (f : List Char → List Char) (front run : List Char) :
    relines f (front ++ '\n' :: run) = relines f front ++ '\n' :: relines f run := by
  induction front using feeds_induction with
  | last l hl => rw [relines_line f hl, relines_last f hl]
  | line l front hl ih =>
    rw [List.append_assoc, List.cons_append, relines_line f hl, ih, relines_line f hl,
      List.append_assoc, List.cons_append]

/-- A line feed and what follows it. -/
theorem relinesInside_append (f : List Char → List Char) (front run : List Char) :
    relinesInside f (front ++ '\n' :: run) = relinesInside f front ++ '\n' :: relines f run := by
  induction front using feeds_induction with
  | last l hl => rw [relinesInside_line f hl, relinesInside_last f hl]
  | line l front hl ih =>
    rw [List.append_assoc, List.cons_append, relinesInside_line f hl, relines_append,
      relinesInside_line f hl, List.append_assoc, List.cons_append]

theorem relines_map (f g : List Char → List Char) (hg : ∀ l, '\n' ∉ l → '\n' ∉ g l)
    (cs : List Char) : relines f (relines g cs) = relines (f ∘ g) cs := by
  induction cs using feeds_induction with
  | last l hl =>
    rw [relines_last g hl, relines_last f (hg l hl), relines_last _ hl]
    rfl
  | line l run hl ih =>
    rw [relines_line g hl, relines_line f (hg l hl), ih, relines_line _ hl]
    rfl

/-- Two rewritings, one after the other, are one. -/
theorem relinesInside_map (f g : List Char → List Char) (hg : ∀ l, '\n' ∉ l → '\n' ∉ g l)
    (cs : List Char) :
    relinesInside f (relinesInside g cs) = relinesInside (f ∘ g) cs := by
  induction cs using feeds_induction with
  | last l hl => rw [relinesInside_last g hl, relinesInside_last f hl, relinesInside_last _ hl]
  | line l run hl _ =>
    rw [relinesInside_line g hl, relinesInside_line f hl, relines_map f g hg,
      relinesInside_line _ hl]

theorem relines_eq_self_iff (hf : ∀ l, '\n' ∉ l → '\n' ∉ f l) :
    relines f cs = cs ↔ ∀ l ∈ splitAtEach (· == '\n') cs, f l = l := by
  induction cs using feeds_induction with
  | last l hl => rw [relines_last f hl, splitAtEach_feedless hl, List.forall_mem_singleton]
  | line l run hl ih =>
    rw [relines_line f hl, splitAtEach_feed run hl, List.forall_mem_cons, ← ih]
    constructor
    · intro h
      have hlines := congrArg (splitAtEach (· == '\n')) h
      rw [splitAtEach_feed _ (hf l hl), splitAtEach_feed _ hl] at hlines
      obtain ⟨hline, -⟩ := List.cons.inj hlines
      rw [hline, List.append_cancel_left_eq] at h
      exact ⟨hline, (List.cons.inj h).2⟩
    · rintro ⟨hline, hrun⟩
      rw [hline, hrun]

/-- A text stays exactly if all its lines but the first do. -/
theorem relinesInside_eq_self_iff (hf : ∀ l, '\n' ∉ l → '\n' ∉ f l) :
    relinesInside f cs = cs ↔ ∀ l ∈ (splitAtEach (· == '\n') cs).tail, f l = l := by
  induction cs using feeds_induction with
  | last l hl => simp [relinesInside_last f hl, splitAtEach_feedless hl]
  | line l run hl _ =>
    rw [relinesInside_line f hl, splitAtEach_feed run hl, List.tail_cons, ← relines_eq_self_iff hf,
      List.append_cancel_left_eq, List.cons_inj_right]

/-- A line is only changed in the white space at its start: it is white space before and after, or
what follows its first other character stays, whatever this is. -/
inductive Shifts (f : List Char → List Char) (l : List Char) : Prop where
  | blank : Spaces l → Spaces (f l) → Shifts f l
  | solid (before after : List Char) (c : Char) (rest : List Char) : Spaces before → Spaces after →
      l = before ++ c :: rest → (∀ rest, f (before ++ c :: rest) = after ++ c :: rest) → Shifts f l

/-! ## Margins -/

/-- A line without a margin of `k` characters. -/
def dedentLine (k : Nat) (l : List Char) : List Char :=
  if l.all isMarginChar then [] else l.drop k

/-- A line with a margin. -/
def indentLine (margin l : List Char) : List Char := if l.all isBlank then l else margin ++ l

theorem dedentChars_eq (cs : List Char) :
    dedentChars cs =
      relines (dedentLine (sharedMargin (splitAtEach (· == '\n') cs)).length) cs := rfl

theorem isBlank_of_isMarginChar {c : Char} (h : isMarginChar c = true) : isBlank c = true := by
  rw [isMarginChar, Bool.or_eq_true, beq_iff_eq, beq_iff_eq] at h
  rcases h with rfl | rfl <;> decide

theorem commonStart_isPrefix (as bs : List Char) :
    commonStart as bs <+: as ∧ commonStart as bs <+: bs := by
  induction as generalizing bs with
  | nil => simp [commonStart]
  | cons a as ih =>
    cases bs with
    | nil => simp [commonStart]
    | cons b bs =>
      rw [commonStart]
      split
      · next h =>
        obtain rfl : a = b := by simpa using h
        exact ⟨List.cons_prefix_cons.mpr ⟨rfl, (ih bs).1⟩,
          List.cons_prefix_cons.mpr ⟨rfl, (ih bs).2⟩⟩
      · exact ⟨List.nil_prefix, List.nil_prefix⟩

theorem foldl_commonStart_isPrefix (margin : List Char) (margins : List (List Char)) :
    margins.foldl commonStart margin <+: margin ∧
      ∀ m ∈ margins, margins.foldl commonStart margin <+: m := by
  induction margins generalizing margin with
  | nil => exact ⟨List.prefix_refl margin, fun m hm => absurd hm List.not_mem_nil⟩
  | cons m margins ih =>
    rw [List.foldl_cons]
    obtain ⟨hfirst, hrest⟩ := ih (commonStart margin m)
    obtain ⟨hmargin, hm⟩ := commonStart_isPrefix margin m
    exact ⟨hfirst.trans hmargin, List.forall_mem_cons.mpr ⟨hfirst.trans hm, hrest⟩⟩

/-- **The shared margin** is at the start of each line with content. -/
theorem sharedMargin_isPrefix {lines : List (List Char)} (hl : l ∈ lines)
    (hcontent : l.all isMarginChar = false) :
    sharedMargin lines <+: l.takeWhile isMarginChar := by
  have hmem : l.takeWhile isMarginChar ∈
      (lines.filter (fun l => !l.all isMarginChar)).map (·.takeWhile isMarginChar) :=
    List.mem_map_of_mem (List.mem_filter.mpr ⟨hl, by simp [hcontent]⟩)
  unfold sharedMargin
  generalize (lines.filter (fun l => !l.all isMarginChar)).map (·.takeWhile isMarginChar) =
    margins at hmem
  cases margins with
  | nil => cases hmem
  | cons m margins =>
    obtain ⟨hfirst, hrest⟩ := foldl_commonStart_isPrefix m margins
    rcases List.mem_cons.mp hmem with heq | hmem
    · exact heq ▸ hfirst
    · exact hrest _ hmem

theorem spaces_takeWhile {p : Char → Bool} (hp : ∀ c, p c = true → isBlank c = true)
    (l : List Char) : Spaces (l.takeWhile p) :=
  fun c hc => hp c (List.mem_takeWhile_imp hc)

/-- **Removing a margin that a line has** shifts the line. -/
theorem shifts_dedentLine {k : Nat}
    (h : l.all isMarginChar = false → k ≤ (l.takeWhile isMarginChar).length) :
    Shifts (dedentLine k) l := by
  cases hall : l.all isMarginChar with
  | true =>
    refine .blank (fun c hc => isBlank_of_isMarginChar (List.all_eq_true.mp hall c hc)) ?_
    rw [dedentLine, if_pos hall]
    exact fun c hc => absurd hc List.not_mem_nil
  | false =>
    obtain ⟨c, rest, hsplit, hc⟩ := exists_split hall
    have hspaces := spaces_takeWhile (fun _ => isBlank_of_isMarginChar) l
    refine .solid _ ((l.takeWhile isMarginChar).drop k) c rest hspaces
      (fun d hd => hspaces d (List.mem_of_mem_drop hd)) hsplit fun rest => ?_
    rw [dedentLine, if_neg (by simp [hc]), List.drop_append_of_le_length (h hall)]

/-- **Putting a margin in** shifts a line. -/
theorem shifts_indentLine {margin : List Char} (hmargin : Spaces margin) (l : List Char) :
    Shifts (indentLine margin) l := by
  cases hall : l.all isBlank with
  | true =>
    have hl : Spaces l := fun c hc => List.all_eq_true.mp hall c hc
    refine .blank hl ?_
    rwa [indentLine, if_pos hall]
  | false =>
    obtain ⟨c, rest, hsplit, hc⟩ := exists_split hall
    have hspaces := spaces_takeWhile (fun _ hd => hd) l
    refine .solid _ (margin ++ l.takeWhile isBlank) c rest hspaces
      (List.forall_mem_append.mpr ⟨hmargin, hspaces⟩) hsplit fun rest => ?_
    rw [indentLine, if_neg (by simp [hc]), List.append_assoc]

/-! ## Line ends -/

/-- The text with a line feed for each end of a line. -/
def plainBreaks : List Char → List Char
  | '\r' :: '\n' :: cs => '\n' :: plainBreaks cs
  | c :: cs => (if isLineBreak c then '\n' else c) :: plainBreaks cs
  | [] => []

/-- Only line feeds end lines in the text. -/
def FeedsOnly (cs : List Char) : Prop := ∀ c ∈ cs, isLineBreak c = true → c = '\n'

instance (cs : List Char) : Decidable (FeedsOnly cs) :=
  List.decidableBAll (fun c => isLineBreak c = true → c = '\n') cs

theorem plainBreaks_of_feedsOnly (h : FeedsOnly cs) : plainBreaks cs = cs := by
  induction cs using plainBreaks.induct with
  | case1 cs ih => exact absurd (h '\r' List.mem_cons_self rfl) (by decide)
  | case2 c cs hpair ih =>
    obtain ⟨hc, hcs⟩ := List.forall_mem_cons.mp h
    rw [plainBreaks.eq_2 c cs hpair, ih hcs]
    split
    · next hbreak => rw [hc hbreak]
    · rfl
  | case3 => rfl

/-- All line ends are line feeds then. -/
theorem feedsOnly_plainBreaks (cs : List Char) : FeedsOnly (plainBreaks cs) := by
  induction cs using plainBreaks.induct with
  | case1 cs ih =>
    rw [plainBreaks]
    exact List.forall_mem_cons.mpr ⟨fun _ => rfl, ih⟩
  | case2 c cs hpair ih =>
    rw [plainBreaks.eq_2 c cs hpair]
    refine List.forall_mem_cons.mpr ⟨fun hbreak => ?_, ih⟩
    split at hbreak
    · next hc => rw [if_pos hc]
    · next hc => exact absurd hbreak hc
  | case3 => exact fun c hc => absurd hc List.not_mem_nil

theorem FeedsOnly.relines (h : FeedsOnly cs) (hf : ∀ l, FeedsOnly l → FeedsOnly (f l)) :
    FeedsOnly (relines f cs) := by
  induction cs using feeds_induction with
  | last l hl =>
    rw [relines_last f hl]
    exact hf l h
  | line l run hl ih =>
    obtain ⟨hline, hrun⟩ := List.forall_mem_append.mp h
    rw [relines_line f hl]
    exact List.forall_mem_append.mpr ⟨hf l hline,
      List.forall_mem_cons.mpr ⟨fun _ => rfl, ih (List.forall_mem_cons.mp hrun).2⟩⟩

theorem FeedsOnly.relinesInside (h : FeedsOnly cs) (hf : ∀ l, FeedsOnly l → FeedsOnly (f l)) :
    FeedsOnly (relinesInside f cs) := by
  induction cs using feeds_induction with
  | last l hl => rwa [relinesInside_last f hl]
  | line l run hl _ =>
    obtain ⟨hline, hrun⟩ := List.forall_mem_append.mp h
    rw [relinesInside_line f hl]
    exact List.forall_mem_append.mpr ⟨hline, List.forall_mem_cons.mpr ⟨fun _ => rfl,
      FeedsOnly.relines (List.forall_mem_cons.mp hrun).2 hf⟩⟩

/-- A text can be cut anywhere but between a carriage return and the line feed after it. -/
theorem plainBreaks_append {front run : List Char}
    (h : front.getLast? = some '\r' → run.head? ≠ some '\n') :
    plainBreaks (front ++ run) = plainBreaks front ++ plainBreaks run := by
  induction front using plainBreaks.induct with
  | case1 front ih =>
    have hfront : front.getLast? = some '\r' → run.head? ≠ some '\n' := fun hlast => h (by
      rw [List.getLast?_cons_cons, List.getLast?_cons, hlast]
      rfl)
    rw [List.cons_append, List.cons_append, plainBreaks, plainBreaks, List.cons_append, ih hfront]
  | case2 c front hpair ih =>
    have hfront : front.getLast? = some '\r' → run.head? ≠ some '\n' := fun hlast => h (by
      rw [List.getLast?_cons, hlast]
      rfl)
    have hpair' : ∀ rest, c = '\r' → front ++ run = '\n' :: rest → False := by
      intro rest hc heq
      cases front with
      | nil => exact h (by rw [hc]; rfl) (by rw [← List.nil_append run, heq]; rfl)
      | cons d front =>
        obtain ⟨rfl, -⟩ := List.cons.inj heq
        exact hpair front hc rfl
    rw [List.cons_append, plainBreaks.eq_2 _ _ hpair', plainBreaks.eq_2 _ _ hpair, ih hfront,
      List.cons_append]
  | case3 => rfl

theorem plainBreaks_concat {c : Char} (h : cs.getLast? = some '\r' → c ≠ '\n') :
    plainBreaks (cs ++ [c]) = plainBreaks cs ++ [if isLineBreak c then '\n' else c] := by
  have hlone : plainBreaks [c] = [if isLineBreak c then '\n' else c] :=
    plainBreaks.eq_2 c [] fun _ _ heq => by cases heq
  have hopen : cs.getLast? = some '\r' → [c].head? ≠ some '\n' := fun hlast hhead =>
    h hlast (Option.some.inj hhead)
  rw [plainBreaks_append hopen, hlone]

theorem plainBreaks_concat_pair (cs : List Char) :
    plainBreaks (cs ++ ['\r', '\n']) = plainBreaks cs ++ ['\n'] :=
  @plainBreaks_append cs ['\r', '\n'] fun _ => by decide

theorem feedless_of_unbroken (h : ∀ c ∈ cs, isLineBreak c = false) : '\n' ∉ cs := fun hmem => by
  have hfeed := h _ hmem
  cases hfeed

theorem splitLinesFrom_eq {acc : List Char} (hacc : ∀ c ∈ acc, isLineBreak c = false)
    (hne : acc ≠ [] ∨ cs ≠ []) (hlast : ∀ c ∈ cs.getLast?, isLineBreak c = false) :
    splitLinesFrom acc cs = splitAtEach (· == '\n') (acc.reverse ++ plainBreaks cs) := by
  have hfree (acc : List Char) (h : ∀ c ∈ acc, isLineBreak c = false) : '\n' ∉ acc.reverse :=
    fun hmem => feedless_of_unbroken h (List.mem_reverse.mp hmem)
  -- Behind a line end something follows, so that the next line is not empty.
  have hbehind (c : Char) (cs : List Char) (hc : isLineBreak c = true)
      (h : ∀ d ∈ (c :: cs).getLast?, isLineBreak d = false) :
      cs ≠ [] ∧ ∀ d ∈ cs.getLast?, isLineBreak d = false := by
    have hcs : cs ≠ [] := by
      rintro rfl
      rw [h c rfl] at hc
      cases hc
    refine ⟨hcs, fun d hd => h d ?_⟩
    rw [List.getLast?_cons, hd]
    rfl
  induction acc, cs using splitLinesFrom.induct with
  | case1 => simp at hne
  | case2 acc h =>
    rw [splitLinesFrom, plainBreaks, List.append_nil, splitAtEach_feedless (hfree acc hacc)]
    exact h
  | case3 acc cs ih =>
    obtain ⟨-, htail⟩ := hbehind '\r' ('\n' :: cs) rfl hlast
    obtain ⟨hcs, hrest⟩ := hbehind '\n' cs rfl htail
    rw [splitLinesFrom, plainBreaks, splitAtEach_feed _ (hfree acc hacc),
      ih (fun c hc => absurd hc List.not_mem_nil) (.inr hcs) hrest]
    rfl
  | case4 acc c cs hpair hbreak ih =>
    obtain ⟨hcs, hrest⟩ := hbehind c cs hbreak hlast
    rw [splitLinesFrom.eq_4 acc c cs hpair, if_pos hbreak, plainBreaks.eq_2 c cs hpair,
      if_pos hbreak, splitAtEach_feed _ (hfree acc hacc),
      ih (fun c hc => absurd hc List.not_mem_nil) (.inr hcs) hrest]
    rfl
  | case5 acc c cs hpair hbreak ih =>
    have hc : isLineBreak c = false := by simpa using hbreak
    have hrest : ∀ d ∈ cs.getLast?, isLineBreak d = false := fun d hd => hlast d (by
      rw [List.getLast?_cons, hd]
      rfl)
    rw [splitLinesFrom.eq_4 acc c cs hpair, if_neg hbreak, plainBreaks.eq_2 c cs hpair,
      if_neg hbreak, ih (List.forall_mem_cons.mpr ⟨hc, hacc⟩) (.inl (List.cons_ne_nil c acc)) hrest,
      List.reverse_cons, List.append_assoc]
    rfl

/-- **Indenting** a text that does not end in a line end. -/
theorem indent_eq {text margin : String}
    (hlast : ∀ c ∈ text.toList.getLast?, isLineBreak c = false) :
    (indent text margin).toList = relines (indentLine margin.toList) (plainBreaks text.toList) := by
  have hline (line : List Char) :
      (if isBlankText (String.ofList line) then String.ofList line
        else margin ++ String.ofList line).toList = indentLine margin.toList line := by
    rw [isBlankText, indentLine, String.toList_ofList]
    split <;> simp
  rw [indent, String.toList_intercalate, relines, splitLines, List.map_map, List.map_map]
  by_cases hempty : text.toList = []
  · rw [hempty]
    rfl
  · rw [splitLinesFrom_eq (fun c hc => absurd hc List.not_mem_nil) (.inr hempty) hlast,
      List.reverse_nil, List.nil_append]
    exact congrArg (['\n'].intercalate ·) (List.map_congr_left fun line _ => hline line)

end Trellis.Text
