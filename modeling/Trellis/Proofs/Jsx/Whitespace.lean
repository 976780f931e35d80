import Trellis.Jsx.Emit
import Trellis.Proofs.Jsx.Spelling
import Trellis.Proofs.Text.Runs
import Trellis.Proofs.Text.Segments

/-!
# White space in children

The children of an element are text, expressions in braces and elements. JSX does not keep the white
space of a text as it is written: a run of text is split into lines, each line is trimmed except at
the two ends of the run, lines without anything left vanish, and the others are joined by one space.

* `clean` is this rule for one run, and `denote` what a list of children stands for: strings, with
  expressions and elements between them.
* `tidy` writes children in a normal form, in one pass that decides about the white space between
  two things when it reads the second one: with a line break in it, it becomes one space between two
  words and nothing elsewhere; without one, it stays.
* `denote_eq_iff`: children stand for the same things exactly if they have the same normal form.
-/

namespace Trellis.Jsx

open Trellis.Text

/-- Which characters JSX takes for blanks and for line breaks in a text. The emitter has a text of
nothing else for blank. -/
structure LineRule where
  isSpace : Char → Bool
  isBreak : Char → Bool
  space : isSpace ' ' = true
  newline : isBreak '\n' = true
  disjoint : ∀ c, isSpace c = true → isBreak c = false
  blank : ∀ c, isSpace c = true ∨ isBreak c = true → isBlank c = true

/-- Blanks are spaces and tabs, and lines end with a line feed, a carriage return or both. -/
def LineRule.ascii : LineRule where
  isSpace c := c == ' ' || c == '\t'
  isBreak c := c == '\n' || c == '\r'
  space := rfl
  newline := rfl
  disjoint c h := by
    rw [Bool.or_eq_true, beq_iff_eq, beq_iff_eq] at h
    rcases h with rfl | rfl <;> rfl
  blank c h := by
    simp only [Bool.or_eq_true, beq_iff_eq] at h
    rcases h with (rfl | rfl) | (rfl | rfl) <;> rfl

/-! ## What children stand for -/

/-- What children are written with: characters of text, and expressions and elements. -/
inductive Child
  | char (c : Char)
  | code (text : String)
  deriving DecidableEq, Repr

/-- What children stand for: strings, with entities as they are written, and expressions and
elements. -/
inductive Item
  | str (cs : List Char)
  | code (text : String)
  deriving DecidableEq, Repr

/-- A child as it is written. -/
def Child.text : Child → String
  | .char c => String.singleton c
  | .code text => text

/-- A character of text. -/
def Child.isWord : Child → Bool
  | .char _ => true
  | .code _ => false

/-- Children as they are written. -/
def render (ps : List Child) : String := String.join (ps.map Child.text)

/-- Text as children. -/
abbrev chars (cs : List Char) : List Child := cs.map Child.char

/-- The string of a run of text, if anything is left of it. -/
def strItem (cs : List Char) : List Item := if cs.isEmpty then [] else [.str cs]

/-- The items of children, with the text `run` before them. Each run of text counts as `read` of
it. -/
def itemsFrom (read : List Char → List Char) : List Char → List Child → List Item
  | run, [] => strItem (read run)
  | run, .char c :: ps => itemsFrom read (run ++ [c]) ps
  | run, .code text :: ps => strItem (read run) ++ .code text :: itemsFrom read [] ps

/-- What a line break between two things counts as: a space, if both are words. -/
def joint (before ahead : Bool) : List Char := if before && ahead then [' '] else []

/-- What stands before a place: a word or something else, and the white space since. -/
structure Before where
  word : Bool := false
  gap : List Char := []

namespace LineRule

variable (r : LineRule)

/-- Lines without the blanks at their ends, except at the start of the first and at the end of the
last. -/
def trimLines : Bool → List (List Char) → List (List Char)
  | _, [] => []
  | first, line :: lines =>
    let start := if first then line else line.dropWhile r.isSpace
    (if lines.isEmpty then start else dropTrailing r.isSpace start) :: trimLines false lines

/-- A run of text as JSX reads it. -/
def clean (run : List Char) : List Char :=
  [' '].intercalate ((r.trimLines true (splitAtEach r.isBreak run)).filter (!·.isEmpty))

/-- What children stand for. -/
def denote (ps : List Child) : List Item := itemsFrom r.clean [] ps

/-! ## The normal form -/

/-- White space of a text. -/
def isGap (c : Char) : Bool := r.isSpace c || r.isBreak c

/-- Anything but white space. -/
def isSolid : Child → Bool
  | .char c => !r.isGap c
  | .code _ => true

/-- The white space that is kept, when what comes next is a word or something else. -/
def kept (b : Before) (ahead : Bool) : List Char :=
  if b.gap.any r.isBreak then joint b.word ahead else b.gap

/-- What stands before the place after a child. -/
def pass (b : Before) : Child → Before
  | .char c => if r.isGap c then { b with gap := b.gap ++ [c] } else { word := true }
  | .code _ => {}

/-- Children in normal form, after what stands before them. -/
def tidyFrom (b : Before) : List Child → List Child
  | [] => chars (r.kept b false)
  | p :: ps =>
    if r.isSolid p then chars (r.kept b p.isWord) ++ p :: tidyFrom (r.pass b p) ps
    else tidyFrom (r.pass b p) ps

/-- Children in normal form. -/
def tidy (ps : List Child) : List Child := r.tidyFrom {} ps

end LineRule

/-! ## Lines -/

section

variable {p : Char → Bool} {l : List Char}

theorem rtakeWhile_append_cons {c : Char} (g m : List Char) (hc : p c = false) :
    (g ++ c :: m).rtakeWhile p = m.rtakeWhile p := by
  have hwhole := dropTrailing_append_rtakeWhile p (g ++ c :: m)
  rw [dropTrailing_append_cons g m hc] at hwhole
  have hsame : (g ++ c :: dropTrailing p m) ++ (g ++ c :: m).rtakeWhile p =
      (g ++ c :: dropTrailing p m) ++ m.rtakeWhile p := by
    rw [hwhole, List.append_assoc, List.cons_append, dropTrailing_append_rtakeWhile]
  exact List.append_cancel_left hsame

theorem dropTrailing_dropWhile_ne_nil (h : l.dropWhile p ≠ []) :
    dropTrailing p (l.dropWhile p) ≠ [] := by
  obtain ⟨c, m, hm, hc⟩ := exists_dropWhile_eq_cons h
  rw [hm, ← List.nil_append (c :: m), dropTrailing_append_cons [] m hc]
  exact List.cons_ne_nil _ _

/-- The start of a text that is not all blank stays as it is. -/
theorem dropTrailing_eq_append (h : l.dropWhile p ≠ []) :
    dropTrailing p l = l.takeWhile p ++ dropTrailing p (l.dropWhile p) := by
  obtain ⟨c, m, hm, hc⟩ := exists_dropWhile_eq_cons h
  have hkeep := dropTrailing_append_cons [] m hc
  conv_lhs => rw [← List.takeWhile_append_dropWhile (p := p) (l := l)]
  rw [hm, dropTrailing_append_cons _ m hc, ← List.nil_append (c :: m), hkeep]
  rfl

end

namespace LineRule

variable {r : LineRule}

/-! ## The rule for one run, in one pass -/

@[simp] theorem isGap_of_isSpace {c : Char} (h : r.isSpace c = true) : r.isGap c = true := by
  rw [isGap, h, Bool.true_or]

@[simp] theorem isGap_of_isBreak {c : Char} (h : r.isBreak c = true) : r.isGap c = true := by
  rw [isGap, h, Bool.or_true]

theorem isGap_eq_false {c : Char} (hspace : r.isSpace c = false) (hbreak : r.isBreak c = false) :
    r.isGap c = false := by
  rw [isGap, hspace, hbreak]
  rfl

theorem kept_of_break {b : Before} (ahead : Bool) (h : b.gap.any r.isBreak = true) :
    r.kept b ahead = joint b.word ahead := if_pos h

theorem kept_of_spaces {b : Before} (ahead : Bool) (h : ∀ c ∈ b.gap, r.isSpace c = true) :
    r.kept b ahead = b.gap := by
  refine if_neg ?_
  rw [List.any_eq_true]
  rintro ⟨c, hc, hbreak⟩
  rw [r.disjoint c (h c hc)] at hbreak
  cases hbreak

theorem tidyFrom_gap (b : Before) (rest : List Child) {g : List Char}
    (h : ∀ c ∈ g, r.isGap c = true) :
    r.tidyFrom b (chars g ++ rest) = r.tidyFrom { b with gap := b.gap ++ g } rest := by
  induction g generalizing b with
  | nil => rw [List.append_nil]; rfl
  | cons c g ih =>
    obtain ⟨hc, hg⟩ := List.forall_mem_cons.mp h
    rw [chars, List.map_cons, List.cons_append, tidyFrom, if_neg (by simp [isSolid, hc]), ih _ hg,
      pass, if_pos hc, List.append_assoc]
    rfl

theorem tidyFrom_char (b : Before) (rest : List Child) {c : Char} (h : r.isGap c = false) :
    r.tidyFrom b (.char c :: rest) =
      chars (r.kept b true) ++ .char c :: r.tidyFrom { word := true } rest := by
  rw [tidyFrom, if_pos (by simp [isSolid, h]), pass, if_neg (by simp [h])]
  rfl

/-- The rest of a line, after a word: everything is kept up to the last solid character. -/
theorem tidyFrom_line (rest : List Child) {l g : List Char} (hl : ∀ c ∈ l, r.isBreak c = false)
    (hg : ∀ c ∈ g, r.isSpace c = true) :
    r.tidyFrom { word := true, gap := g } (chars l ++ rest) =
      chars (dropTrailing r.isSpace (g ++ l)) ++
        r.tidyFrom { word := true, gap := (g ++ l).rtakeWhile r.isSpace } rest := by
  induction l generalizing g with
  | nil =>
    have hdrop : dropTrailing r.isSpace g = [] := List.rdropWhile_eq_nil_iff.mpr hg
    rw [List.append_nil, hdrop, List.rtakeWhile_eq_self_iff.mpr hg]
    rfl
  | cons c l ih =>
    obtain ⟨hc, hl⟩ := List.forall_mem_cons.mp hl
    cases hspace : r.isSpace c with
    | true =>
      have hgc : ∀ d ∈ g ++ [c], r.isSpace d = true := by
        simpa [or_imp, forall_and, hspace] using hg
      have hcons : chars (c :: l) ++ rest = chars [c] ++ (chars l ++ rest) := rfl
      rw [hcons, tidyFrom_gap _ _ (by simp [hspace]), ih hl hgc, List.append_assoc]
      rfl
    | false =>
      rw [dropTrailing_append_cons g l hspace, rtakeWhile_append_cons g l hspace, chars,
        List.map_cons, List.cons_append, tidyFrom_char _ _ (isGap_eq_false hspace hc),
        kept_of_spaces _ hg, ih hl (by simp)]
      simp [chars]

/-- The blanks at the start of a line go to what stands before it. -/
theorem tidyFrom_blankLine (b : Before) (rest : List Child) {l : List Char}
    (h : l.dropWhile r.isSpace = []) :
    r.tidyFrom b (chars l ++ rest) = r.tidyFrom { b with gap := b.gap ++ l } rest :=
  tidyFrom_gap b rest fun c hc => isGap_of_isSpace (List.dropWhile_eq_nil_iff.mp h c hc)

/-- A line that is not blank, up to its last solid character. -/
theorem tidyFrom_wordLine (b : Before) (rest : List Child) {l : List Char}
    (hl : ∀ c ∈ l, r.isBreak c = false) (h : l.dropWhile r.isSpace ≠ []) :
    r.tidyFrom b (chars l ++ rest) =
      chars (r.kept { b with gap := b.gap ++ l.takeWhile r.isSpace } true) ++
        chars (dropTrailing r.isSpace (l.dropWhile r.isSpace)) ++
          r.tidyFrom { word := true, gap := (l.dropWhile r.isSpace).rtakeWhile r.isSpace }
            rest := by
  obtain ⟨c, m, hm, hspace⟩ := exists_dropWhile_eq_cons h
  have hsplit : l = l.takeWhile r.isSpace ++ c :: m := by
    rw [← hm, List.takeWhile_append_dropWhile]
  have htake : ∀ d ∈ l.takeWhile r.isSpace, r.isGap d = true :=
    fun d hd => isGap_of_isSpace (List.mem_takeWhile_imp hd)
  have hcm : ∀ d ∈ c :: m, r.isBreak d = false := by
    intro d hd
    exact hl d (hsplit ▸ List.mem_append_right _ hd)
  obtain ⟨hc, hbreak⟩ := List.forall_mem_cons.mp hcm
  have htrail : (c :: m).rtakeWhile r.isSpace = m.rtakeWhile r.isSpace :=
    rtakeWhile_append_cons [] m hspace
  have hpieces : chars l ++ rest =
      chars (l.takeWhile r.isSpace) ++ (.char c :: (chars m ++ rest)) := by
    conv_lhs => rw [hsplit]
    simp [chars]
  have hkeep : dropTrailing r.isSpace (c :: m) = c :: dropTrailing r.isSpace m :=
    dropTrailing_append_cons [] m hspace
  rw [hpieces, tidyFrom_gap _ _ htake, tidyFrom_char _ _ (isGap_eq_false hspace hc),
    tidyFrom_line rest hbreak (by simp), hm, hkeep, htrail]
  simp [chars]

/-- Lines one after the other, without the empty ones and with a space before each; before the first
only if something stands before it. -/
def joinFrom (before : Bool) : List (List Char) → List Char
  | [] => []
  | line :: lines =>
    if line.isEmpty then joinFrom before lines
    else joint before true ++ line ++ joinFrom true lines

theorem append_joinFrom (line : List Char) (lines : List (List Char)) :
    line ++ joinFrom true lines = [' '].intercalate (line :: lines.filter (!·.isEmpty)) := by
  induction lines generalizing line with
  | nil => simp [joinFrom]
  | cons next lines ih =>
    cases hnext : next.isEmpty with
    | true => rw [joinFrom, if_pos hnext, ih, List.filter_cons_of_neg (by simp [hnext])]
    | false =>
      rw [joinFrom, if_neg (by simp [hnext]), List.filter_cons_of_pos (by simp [hnext]),
        List.intercalate_cons_cons, ← ih]
      simp [joint]

theorem joinFrom_eq_intercalate (lines : List (List Char)) :
    joinFrom false lines = [' '].intercalate (lines.filter (!·.isEmpty)) := by
  induction lines with
  | nil => rfl
  | cons line lines ih =>
    cases hline : line.isEmpty with
    | true => rw [joinFrom, if_pos hline, ih, List.filter_cons_of_neg (by simp [hline])]
    | false =>
      rw [joinFrom, if_neg (by simp [hline]), List.filter_cons_of_pos (by simp [hline]),
        ← append_joinFrom]
      rfl

theorem clean_eq_joinFrom (run : List Char) :
    r.clean run = joinFrom false (r.trimLines true (splitAtEach r.isBreak run)) :=
  (joinFrom_eq_intercalate _).symm

theorem trimLines_splitAtEach (first : Bool) (line run : List Char) :
    r.trimLines first (line :: splitAtEach r.isBreak run) =
      dropTrailing r.isSpace (if first then line else line.dropWhile r.isSpace) ::
        r.trimLines false (splitAtEach r.isBreak run) := by
  rw [trimLines, if_neg (by simpa using splitAtEach_ne_nil r.isBreak run)]

theorem chars_line (l : List Char) (c : Char) (run : List Char) (rest : List Child) :
    chars (l ++ c :: run) ++ rest = chars l ++ (chars [c] ++ (chars run ++ rest)) := by
  simp [chars]

/-- A run of text ends with the children, or at an expression or an element. -/
theorem tidyFrom_end (b : Before) {rest : List Child} (h : ∀ p ∈ rest.head?, p.isWord = false) :
    r.tidyFrom b rest = chars (r.kept b false) ++ r.tidyFrom {} rest := by
  cases rest with
  | nil => simp [tidyFrom, kept]
  | cons p rest =>
    cases p with
    | char c => cases h _ rfl
    | code text => simp [tidyFrom, isSolid, pass, Child.isWord, kept]

/-- The lines of a run after a line break. -/
theorem tidyFrom_lines {rest : List Child} (hrest : ∀ p ∈ rest.head?, p.isWord = false)
    (run : List Char) {b : Before} (hb : b.gap.any r.isBreak = true) :
    r.tidyFrom b (chars run ++ rest) =
      chars (joinFrom b.word (r.trimLines false (splitAtEach r.isBreak run))) ++
        r.tidyFrom {} rest := by
  induction run using lines_induction (p := r.isBreak) generalizing b with
  | last l hl =>
    have htrim : r.trimLines false (splitAtEach r.isBreak l) = [l.dropWhile r.isSpace] := by
      rw [splitAtEach_last hl]
      rfl
    by_cases hblank : l.dropWhile r.isSpace = []
    · rw [tidyFrom_blankLine b rest hblank, tidyFrom_end _ hrest, kept_of_break _ (by simp [hb]),
        htrim, hblank]
      simp [joint, joinFrom]
    · rw [tidyFrom_wordLine b rest hl hblank, kept_of_break _ (by simp [hb]),
        tidyFrom_end _ hrest, kept_of_spaces _ fun c => List.mem_rtakeWhile_imp, htrim, joinFrom,
        if_neg (by simpa using hblank)]
      conv_rhs => rw [← dropTrailing_append_rtakeWhile r.isSpace (l.dropWhile r.isSpace)]
      simp [joinFrom, chars]
  | line l c run hl hc ih =>
    have htrim := trimLines_splitAtEach (r := r) false l run
    have hgap : ∀ d ∈ [c], r.isGap d = true := by simp [hc]
    rw [splitAtEach_line run hl hc, htrim, chars_line, if_neg Bool.false_ne_true]
    by_cases hblank : l.dropWhile r.isSpace = []
    · rw [tidyFrom_blankLine b _ hblank, tidyFrom_gap _ _ hgap, ih (by simp [hb]), hblank]
      rfl
    · have hkept : dropTrailing r.isSpace (l.dropWhile r.isSpace) ≠ [] :=
        dropTrailing_dropWhile_ne_nil hblank
      rw [tidyFrom_wordLine b _ hl hblank, kept_of_break _ (by simp [hb]), tidyFrom_gap _ _ hgap,
        ih (by simp [hc]), joinFrom, if_neg (by simpa using hkept)]
      simp [chars]

/-- **A run of text in normal form** is what JSX reads of it. -/
theorem tidyFrom_run {rest : List Child} (hrest : ∀ p ∈ rest.head?, p.isWord = false)
    (run : List Char) :
    r.tidyFrom {} (chars run ++ rest) = chars (r.clean run) ++ r.tidyFrom {} rest := by
  rw [clean_eq_joinFrom]
  -- The first line, which keeps its start; the others are as after any line break.
  induction run using lines_induction (p := r.isBreak) with
  | last l hl =>
    have htrim : joinFrom false (r.trimLines true (splitAtEach r.isBreak l)) = l := by
      rw [splitAtEach_last hl]
      cases l <;> simp [trimLines, joinFrom, joint]
    by_cases hblank : l.dropWhile r.isSpace = []
    · have hspaces := List.dropWhile_eq_nil_iff.mp hblank
      rw [tidyFrom_blankLine _ rest hblank, tidyFrom_end _ hrest, kept_of_spaces _ (by simpa),
        htrim]
      rfl
    · rw [tidyFrom_wordLine _ rest hl hblank, kept_of_spaces _ fun c => List.mem_takeWhile_imp,
        tidyFrom_end _ hrest, kept_of_spaces _ fun c => List.mem_rtakeWhile_imp, htrim]
      conv_rhs =>
        rw [← List.takeWhile_append_dropWhile (p := r.isSpace) (l := l),
          ← dropTrailing_append_rtakeWhile r.isSpace (l.dropWhile r.isSpace)]
      simp [chars]
  | line l c run hl hc ih =>
    have htrim := trimLines_splitAtEach (r := r) true l run
    have hgap : ∀ d ∈ [c], r.isGap d = true := by simp [hc]
    rw [splitAtEach_line run hl hc, htrim, chars_line, if_pos rfl]
    by_cases hblank : l.dropWhile r.isSpace = []
    · have hdrop : dropTrailing r.isSpace l = [] :=
        List.rdropWhile_eq_nil_iff.mpr (List.dropWhile_eq_nil_iff.mp hblank)
      rw [tidyFrom_blankLine _ _ hblank, tidyFrom_gap _ _ hgap,
        tidyFrom_lines hrest run (by simp [hc]), hdrop]
      rfl
    · have hkept : dropTrailing r.isSpace (l.dropWhile r.isSpace) ≠ [] :=
        dropTrailing_dropWhile_ne_nil hblank
      rw [tidyFrom_wordLine _ _ hl hblank, kept_of_spaces _ fun c => List.mem_takeWhile_imp,
        tidyFrom_gap _ _ hgap, tidyFrom_lines hrest run (by simp [hc]), joinFrom,
        dropTrailing_eq_append hblank, if_neg (by simp [hkept])]
      simp [chars, joint]

end LineRule

/-! ## Meaning and normal form -/

theorem itemsFrom_chars (read : List Char → List Char) (run cs : List Char) (ps : List Child) :
    itemsFrom read run (chars cs ++ ps) = itemsFrom read (run ++ cs) ps := by
  induction cs generalizing run with
  | nil => rw [List.append_nil]; rfl
  | cons c cs ih =>
    rw [chars, List.map_cons, List.cons_append, itemsFrom, ih, List.append_assoc]
    rfl

/-- Items as children. -/
def respell : List Item → List Child
  | [] => []
  | .str cs :: items => chars cs ++ respell items
  | .code text :: items => .code text :: respell items

theorem respell_itemsFrom (run : List Char) (ps : List Child) :
    respell (itemsFrom id run ps) = chars run ++ ps := by
  have hstr (run : List Char) (items : List Item) :
      respell (strItem run ++ items) = chars run ++ respell items := by
    cases run <;> rfl
  induction ps generalizing run with
  | nil => simpa [itemsFrom, respell] using hstr run []
  | cons p ps ih =>
    cases p with
    | char c =>
      rw [itemsFrom, ih]
      simp [chars]
    | code text =>
      rw [itemsFrom, id, hstr, respell, ih]
      rfl

namespace LineRule

variable {r : LineRule}

theorem itemsFrom_clean (run : List Char) (ps : List Child) :
    itemsFrom r.clean run ps = itemsFrom id [] (r.tidyFrom {} (chars run ++ ps)) := by
  induction ps generalizing run with
  | nil =>
    rw [tidyFrom_run (by simp), itemsFrom_chars]
    rfl
  | cons p ps ih =>
    cases p with
    | char c =>
      rw [itemsFrom, ih]
      simp [chars]
    | code text =>
      have hend : ∀ p ∈ (Child.code text :: ps).head?, p.isWord = false := by simp [Child.isWord]
      rw [itemsFrom, ih, tidyFrom_run hend, itemsFrom_chars]
      rfl

/-- **Children stand for the same things exactly if they have the same normal form.** -/
theorem denote_eq_iff {ps qs : List Child} : r.denote ps = r.denote qs ↔ r.tidy ps = r.tidy qs := by
  have hdenote (ps : List Child) : r.denote ps = itemsFrom id [] (r.tidy ps) :=
    itemsFrom_clean [] ps
  rw [hdenote, hdenote]
  refine ⟨fun h => ?_, fun h => by rw [h]⟩
  simpa [respell_itemsFrom] using congrArg respell h

end LineRule

end Trellis.Jsx
