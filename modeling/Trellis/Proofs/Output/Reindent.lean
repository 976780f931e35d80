import Trellis.Proofs.Script.Literals
import Trellis.Proofs.Text.Relines
import Trellis.Output.Members

/-!
# Moving code

The body of a method is moved to its new place line by line: its margin is removed and a new one is
put in. A line can lie in a literal, and then its margin is part of a value.

* `literals?_relines`: where lines are only shifted, a reader finds the same literals, with the same
  shifts of their lines. `literals?_plainBreaks` is the same for the ends of lines.
* `Steady` says of a literal that moving leaves it alone (`moved_eq_self_iff`).
* `movedBody_literals`: the literals of a body that has been moved are those of the body, each
  moved, so that they are the same exactly if all of them are steady.
-/

namespace Trellis.Script

open Trellis.Text

/-! ## Literals in shifted lines -/

section

variable {f : List Char → List Char} {r : Reader} {c : Char}
  {piece piece' cs cs' l : List Char} {slashes : List Bool} {literals : List (List Char)}

/-- What has been read of a literal in two texts agrees up to the rewriting of its lines, and goes
on doing so up to the end of the line. -/
def Agrees (f : List Char → List Char) (piece piece' : List Char) : Prop :=
  ∀ rest, '\n' ∉ rest → relinesInside f (piece ++ rest) = piece' ++ rest

theorem Agrees.eq (h : Agrees f piece piece') : piece' = relinesInside f piece := by
  have heq := h [] List.not_mem_nil
  rwa [List.append_nil, List.append_nil, eq_comm] at heq

/-- Reading one character of a line that the two texts share. -/
theorem literalsFrom_shared
    (hrest : ∀ r piece piece', (r.inLiteral = true → Agrees f piece piece') →
      literalsFrom r piece' cs' = (literalsFrom r piece cs).map (·.map (relinesInside f)))
    (hc : c ≠ '\n') (h : r.inLiteral = true → Agrees f (piece ++ [c]) (piece' ++ [c])) :
    literalsFrom r piece' (c :: cs') =
      (literalsFrom r piece (c :: cs)).map (·.map (relinesInside f)) := by
  cases hstep : r.step c with
  | none =>
    rw [literalsFrom_of_none hstep, literalsFrom_of_none hstep]
    rfl
  | some next =>
    have hagrees : Agrees f ((if r.inLiteral then piece else []) ++ [c])
        ((if r.inLiteral then piece' else []) ++ [c]) := by
      by_cases hliteral : r.inLiteral = true
      · rw [if_pos hliteral, if_pos hliteral]
        exact h hliteral
      · rw [if_neg hliteral, if_neg hliteral]
        exact fun rest hrest => relinesInside_last f fun hmem => by
          rcases List.mem_cons.mp hmem with hfeed | hmem
          · exact hc hfeed.symm
          · exact hrest hmem
    rw [literalsFrom_cons hstep, literalsFrom_cons hstep]
    by_cases hnext : next.inLiteral = true
    · rw [if_pos hnext, if_pos hnext, hrest _ _ _ fun _ => hagrees]
    · rw [if_neg hnext, if_neg hnext, hrest next [] [] (fun hliteral => absurd hliteral hnext),
        hagrees.eq]
      cases literalsFrom next [] cs with
      | none => rfl
      | some rest =>
        simp only [Option.map_some, List.map_append]
        split <;> rfl

/-- Reading a line, or the rest of one, that the two texts share. -/
theorem literalsFrom_line
    (hrest : ∀ r piece piece', (r.inLiteral = true → piece' = relinesInside f piece) →
      literalsFrom r piece' cs' = (literalsFrom r piece cs).map (·.map (relinesInside f)))
    (hl : '\n' ∉ l) (h : r.inLiteral = true → Agrees f piece piece') :
    literalsFrom r piece' (l ++ cs') =
      (literalsFrom r piece (l ++ cs)).map (·.map (relinesInside f)) := by
  induction l generalizing r piece piece' with
  | nil => exact hrest r piece piece' fun hliteral => (h hliteral).eq
  | cons c l ih =>
    obtain ⟨hc, hl⟩ := not_or.mp (mt List.mem_cons.mpr hl)
    refine literalsFrom_shared (fun r piece piece' h => ih hl h) (Ne.symm hc) fun hliteral => ?_
    intro rest hrest
    have hline := h hliteral (c :: rest) fun hmem => by
      rcases List.mem_cons.mp hmem with hfeed | hmem
      · exact hc hfeed
      · exact hrest hmem
    simpa using hline

/-- Reading a line that is only changed at its start. -/
theorem literalsFrom_shifted
    (hrest : ∀ r piece piece', (r.inLiteral = true → piece' = relinesInside f piece) →
      literalsFrom r piece' cs' = (literalsFrom r piece cs).map (·.map (relinesInside f)))
    (hr : r.region.isCalm = true) (hl : '\n' ∉ l) (hf : Shifts f l)
    (h : r.inLiteral = true → ∃ front,
      piece = front ++ ['\n'] ∧ piece' = relinesInside f front ++ ['\n']) :
    literalsFrom r piece' (f l ++ cs') =
      (literalsFrom r piece (l ++ cs)).map (·.map (relinesInside f)) := by
  cases hf with
  | blank hblank hblank' =>
    rw [literalsFrom_blanks hr hblank, literalsFrom_blanks hr hblank']
    refine hrest r _ _ fun hliteral => ?_
    obtain ⟨front, rfl, rfl⟩ := h hliteral
    rw [List.append_assoc, List.append_assoc, List.singleton_append, List.singleton_append,
      relinesInside_append, relines_last f hl]
  | solid before after c rest hbefore hafter hsplit hshift =>
    subst hsplit
    obtain ⟨hl, hrestless⟩ := not_or.mp (mt List.mem_append.mpr hl)
    obtain ⟨hc, hrestless⟩ := not_or.mp (mt List.mem_cons.mpr hrestless)
    rw [hshift, List.append_assoc, List.append_assoc, literalsFrom_blanks hr hbefore,
      literalsFrom_blanks hr hafter]
    refine literalsFrom_shared (fun r piece piece' h => literalsFrom_line hrest hrestless h)
      (Ne.symm hc) fun hliteral => ?_
    obtain ⟨front, rfl, rfl⟩ := h hliteral
    intro rest' hrest'
    have hfeedless : '\n' ∉ before ++ c :: rest' := by simp [hl, hc, hrest']
    have hline := relinesInside_append f front (before ++ c :: rest')
    rw [relines_last f hfeedless, hshift] at hline
    simpa using hline

/-- A line end is part of the literal that it stands in. -/
theorem literalsFrom_settle (h : r.step c = some r.settle) (piece cs : List Char) :
    literalsFrom r piece (c :: cs) =
      literalsFrom r.settle (if r.inLiteral then piece ++ [c] else []) cs := by
  rw [literalsFrom_cons h, inLiteral_settle]
  by_cases hliteral : r.inLiteral = true
  · simp only [if_pos hliteral]
  · simp only [if_neg hliteral, List.nil_append, Option.map_id']

/-- **Where lines are only shifted**, a reader finds the same literals, with their lines shifted. -/
theorem literalsFrom_relines (hr : r.region.isCalm = true)
    (hf : ∀ l ∈ splitAtEach (· == '\n') cs, Shifts f l)
    (h : r.inLiteral = true → ∃ front,
      piece = front ++ ['\n'] ∧ piece' = relinesInside f front ++ ['\n']) :
    literalsFrom r piece' (relines f cs) =
      (literalsFrom r piece cs).map (·.map (relinesInside f)) := by
  induction cs using feeds_induction generalizing r piece piece' with
  | last l hl =>
    rw [splitAtEach_feedless hl, List.forall_mem_singleton] at hf
    have hline : literalsFrom r piece' (f l ++ []) =
        (literalsFrom r piece (l ++ [])).map (·.map (relinesInside f)) :=
      literalsFrom_shifted (fun _ _ _ _ => rfl) hr hl hf h
    rwa [List.append_nil, List.append_nil, ← relines_last f hl] at hline
  | line l run hl ih =>
    rw [splitAtEach_feed run hl, List.forall_mem_cons] at hf
    rw [relines_line f hl]
    refine literalsFrom_shifted (fun r piece piece' hpiece => ?_) hr hl hf.1 h
    rw [literalsFrom_settle (step_lineFeed r), literalsFrom_settle (step_lineFeed r)]
    refine ih (isCalm_settle r) hf.2 fun hliteral => ?_
    rw [inLiteral_settle] at hliteral
    rw [if_pos hliteral, if_pos hliteral, hpiece hliteral]
    exact ⟨piece, rfl, rfl⟩

theorem literals?_relines (hf : ∀ l ∈ splitAtEach (· == '\n') cs, Shifts f l) :
    literals? slashes (relines f cs) =
      (literals? slashes cs).map (·.map (relinesInside f)) :=
  literalsFrom_relines rfl hf fun habsurd => by cases habsurd

/-- **Where line ends become line feeds**, they do in the literals. -/
theorem literalsFrom_plainBreaks (h : literalsFrom r piece cs = some literals)
    (hpiece : r.inLiteral = true → piece.getLast? = some '\r' → cs.head? ≠ some '\n') :
    literalsFrom r (plainBreaks piece) (plainBreaks cs) = some (literals.map plainBreaks) := by
  induction cs using plainBreaks.induct generalizing r piece literals with
  | case1 cs ih =>
    obtain ⟨next, hstep, -⟩ := exists_step h
    obtain rfl := step_break rfl hstep
    have hcalm : r.settle.settle = r.settle := settle_of_calm (isCalm_settle r)
    rw [literalsFrom_settle hstep, literalsFrom_settle (step_lineFeed _), hcalm,
      inLiteral_settle] at h
    rw [plainBreaks, literalsFrom_settle (step_lineFeed r)]
    by_cases hliteral : r.inLiteral = true
    · rw [if_pos hliteral, if_pos hliteral, List.append_assoc] at h
      rw [if_pos hliteral, ← plainBreaks_concat_pair]
      refine ih h fun _ hlast => ?_
      have hend : (piece ++ ['\r', '\n']).getLast? = some '\n' := by
        rw [List.getLast?_append]
        rfl
      rw [hend] at hlast
      exact absurd hlast (by decide)
    · rw [if_neg hliteral] at h ⊢
      refine ih h fun habsurd => ?_
      rw [inLiteral_settle] at habsurd
      exact absurd habsurd hliteral
  | case2 c cs hpair ih =>
    obtain ⟨next, hstep, hfound⟩ := exists_step h
    have hstep' : r.step (if isLineBreak c then '\n' else c) = some next := by
      split
      · next hbreak => rw [step_break hbreak hstep, step_lineFeed]
      · exact hstep
    have hopen : plainBreaks ((if r.inLiteral then piece else []) ++ [c]) =
        (if r.inLiteral then plainBreaks piece else []) ++ [if isLineBreak c then '\n' else c] := by
      by_cases hliteral : r.inLiteral = true
      · rw [if_pos hliteral, if_pos hliteral]
        exact plainBreaks_concat fun hend hc => hpiece hliteral hend (congrArg some hc)
      · rw [if_neg hliteral, if_neg hliteral]
        exact plainBreaks_concat fun hend => by cases hend
    have hlast : ((if r.inLiteral then piece else []) ++ [c]).getLast? = some '\r' →
        cs.head? ≠ some '\n' := by
      rw [List.getLast?_concat]
      intro hc hhead
      obtain ⟨rest, rfl⟩ := List.head?_eq_some_iff.mp hhead
      exact hpair rest (Option.some.inj hc) rfl
    rw [plainBreaks.eq_2 c cs hpair, literalsFrom_cons hstep', ← hopen]
    rcases hfound with ⟨hnext, h⟩ | ⟨hnext, rest, hrest, rfl⟩
    · rw [if_pos hnext]
      exact ih h fun _ => hlast
    · have hbehind := ih hrest fun habsurd => absurd habsurd hnext
      rw [plainBreaks] at hbehind
      rw [if_neg hnext, hbehind, Option.map_some, List.map_append]
      split <;> rfl
  | case3 =>
    obtain rfl := Option.some.inj h
    rfl

theorem literals?_plainBreaks (h : literals? slashes cs = some literals) :
    literals? slashes (plainBreaks cs) = some (literals.map plainBreaks) :=
  literalsFrom_plainBreaks h fun habsurd => by cases habsurd

end

end Trellis.Script

namespace Trellis.Output

open Trellis.Script
open Trellis.Text
open Trellis.TypeScript

/-! ## Literals of a body that is moved -/

/-- The inside of a block, or the text itself if it has no braces around it, between line feeds. -/
def blockInside (text : String) : List Char :=
  let body := strip text
  let body := if hasStart body "\x7b" && hasEnd body "\x7d" then Text.inner body else body
  trimBoth (· == '\n') body.toList

/-- How long the margin is that the lines of a block share. -/
def blockMargin (text : String) : Nat :=
  (sharedMargin (splitAtEach (· == '\n') (blockInside text))).length

/-- A literal in a block that is moved: the margin of its lines is removed, its line ends become
line feeds, and its lines get the new margin. -/
def moved (k : Nat) (margin literal : List Char) : List Char :=
  relinesInside (indentLine margin) (plainBreaks (relinesInside (dedentLine k) literal))

section

variable {slashes : List Bool} {text : String} {literals : List (List Char)}

theorem literals?_strip (h : literals? slashes text.toList = some literals) :
    literals? slashes (strip text).toList = some literals := by
  rw [strip, String.toList_ofList]
  exact literals?_trimBoth (fun _ hc => hc) h

/-- A text between braces. -/
theorem exists_inner {body : String}
    (h : (hasStart body "\x7b" && hasEnd body "\x7d") = true) :
    ∃ cs, body.toList = '\x7b' :: (cs ++ ['\x7d']) ∧ (Text.inner body).toList = cs := by
  obtain ⟨hopen, hclose⟩ := Bool.and_eq_true_iff.mp h
  obtain ⟨rest, hrest⟩ := List.isPrefixOf_iff_prefix.mp hopen
  obtain ⟨front, hfront⟩ := List.isSuffixOf_iff_suffix.mp hclose
  change ['\x7b'] ++ rest = body.toList at hrest
  change front ++ ['\x7d'] = body.toList at hfront
  cases front with
  | nil =>
    rw [← hfront, List.nil_append, List.singleton_append] at hrest
    exact absurd (List.cons.inj hrest).1 (by decide)
  | cons c front =>
    rw [← hfront, List.cons_append, List.cons_append] at hrest
    obtain ⟨rfl, -⟩ := List.cons.inj hrest
    refine ⟨front, hfront.symm, ?_⟩
    rw [Text.inner, dropFirst, dropLast, String.toList_ofList, String.toList_ofList, ← hfront]
    simp

theorem literals?_blockInside (h : literals? slashes text.toList = some literals) :
    literals? slashes (blockInside text) = some literals := by
  have hbody := literals?_strip h
  have hfeed : ∀ c : Char, (c == '\n') = true → isBlank c = true := fun c hc => by
    rw [beq_iff_eq.mp hc]
    decide
  refine literals?_trimBoth hfeed ?_
  generalize strip text = body at hbody
  split
  · next hbraces =>
    obtain ⟨cs, hbody', hinner⟩ := exists_inner hbraces
    rw [hinner]
    rw [hbody'] at hbody
    exact literals?_braces hbody
  · exact hbody

theorem literals?_dedentBlock (h : literals? slashes text.toList = some literals) :
    literals? slashes (dedentBlock text).toList =
      some (literals.map (relinesInside (dedentLine (blockMargin text)))) := by
  have htext : (dedentBlock text).toList = stripChars (dedentChars (blockInside text)) :=
    String.toList_ofList
  have hshifts : ∀ l ∈ splitAtEach (· == '\n') (blockInside text),
      Shifts (dedentLine (blockMargin text)) l := fun l hl =>
    shifts_dedentLine fun hcontent => (sharedMargin_isPrefix hl hcontent).length_le
  rw [htext]
  refine literals?_trimBoth (fun _ hc => hc) ?_
  rw [dedentChars_eq]
  change literals? slashes (relines (dedentLine (blockMargin text)) (blockInside text)) = _
  rw [literals?_relines hshifts, literals?_blockInside h, Option.map_some]

theorem literals?_indent {margin : String} (hmargin : ∀ c ∈ margin.toList, isMarginChar c = true)
    (hlast : ∀ c ∈ text.toList.getLast?, isLineBreak c = false)
    (h : literals? slashes text.toList = some literals) :
    literals? slashes (indent text margin).toList =
      some (literals.map fun l => relinesInside (indentLine margin.toList) (plainBreaks l)) := by
  have hspaces : Spaces margin.toList := fun c hc => isBlank_of_isMarginChar (hmargin c hc)
  rw [indent_eq hlast, literals?_relines fun l _ => shifts_indentLine hspaces l,
    literals?_plainBreaks h, Option.map_some, List.map_map]
  rfl

theorem not_break_dedentBlock (text : String) :
    ∀ c ∈ (dedentBlock text).toList.getLast?, isLineBreak c = false := by
  have htext : (dedentBlock text).toList = stripChars (dedentChars (blockInside text)) :=
    String.toList_ofList
  have hsolid := (stripChars_eq_self_iff.mp
    (stripChars_stripChars (dedentChars (blockInside text)))).2
  intro c hc
  rw [htext] at hc
  by_contra hbreak
  have hblank := isBlank_of_isLineBreak (by simpa using hbreak)
  rw [hsolid c hc] at hblank
  cases hblank

/-- **The literals of a block that is moved** are those of the block, each moved. -/
theorem literals?_moved {margin : String} (hmargin : ∀ c ∈ margin.toList, isMarginChar c = true)
    (h : literals? slashes text.toList = some literals) :
    literals? slashes (indent (dedentBlock text) margin).toList =
      some (literals.map (moved (blockMargin text) margin.toList)) := by
  rw [literals?_indent hmargin (not_break_dedentBlock text) (literals?_dedentBlock h), List.map_map]
  rfl

end

/-! ## Literals that stay -/

/-- A line of a literal stays: it is empty; or it is white space, but not of blanks and tabs alone,
and no margin is removed; or it has something else in it, and the margin that is removed is the new
one. -/
def KeepsLine (k : Nat) (margin line : List Char) : Prop :=
  line = [] ∨ Spaces line ∧ k = 0 ∧ line.all isMarginChar = false ∨
    ¬Spaces line ∧ margin.length = k ∧ margin <+: line

/-- A literal stays: it has no line ends but line feeds, and all lines in it but the first stay. -/
structure Steady (k : Nat) (margin literal : List Char) : Prop where
  feedsOnly : FeedsOnly literal
  lines : ∀ line ∈ (splitAtEach (· == '\n') literal).tail, KeepsLine k margin line

section

variable {k : Nat} {margin line literal : List Char}

theorem not_mem_dedentLine {c : Char} (k : Nat) (h : c ∉ line) : c ∉ dedentLine k line := by
  rw [dedentLine]
  split
  · exact List.not_mem_nil
  · exact fun hmem => h (List.mem_of_mem_drop hmem)

theorem not_mem_indentLine {c : Char} (hmargin : c ∉ margin) (h : c ∉ line) :
    c ∉ indentLine margin line := by
  rw [indentLine]
  split
  · exact h
  · exact fun hmem => (List.mem_append.mp hmem).elim hmargin h

/-- A line without a margin of some length, and with another one before the rest. -/
theorem append_drop_eq_self_iff (h : line.drop k ≠ []) :
    margin ++ line.drop k = line ↔ margin.length = k ∧ margin <+: line := by
  constructor
  · intro heq
    have hlength := congrArg List.length heq
    have hpositive := List.length_pos_iff.mpr h
    rw [List.length_append, List.length_drop] at hlength
    rw [List.length_drop] at hpositive
    exact ⟨by omega, ⟨_, heq⟩⟩
  · rintro ⟨rfl, hstart⟩
    exact List.prefix_iff_eq_append.mp hstart

theorem drop_eq_self_iff (h : line ≠ []) : line.drop k = line ↔ k = 0 := by
  constructor
  · intro heq
    have hlength := congrArg List.length heq
    have hpositive := List.length_pos_iff.mpr h
    rw [List.length_drop] at hlength
    omega
  · rintro rfl
    rfl

/-- A line without its margin, and with the new one. -/
theorem indentLine_dedentLine_eq_self_iff (hmargin : Spaces margin) :
    indentLine margin (dedentLine k line) = line ↔ KeepsLine k margin line := by
  rw [dedentLine]
  cases hall : line.all isMarginChar with
  | true =>
    have hspaces : Spaces line := fun c hc =>
      isBlank_of_isMarginChar (List.all_eq_true.mp hall c hc)
    have hempty : indentLine margin [] = line ↔ line = [] := eq_comm
    rw [if_pos rfl, hempty, KeepsLine, hall]
    simp [hspaces]
  | false =>
    have hne : line ≠ [] := by
      rintro rfl
      cases hall
    rw [if_neg Bool.false_ne_true, indentLine]
    by_cases hrest : Spaces (line.drop k)
    · have hspaces (hk : k = 0) : Spaces line := by rwa [hk] at hrest
      have hblank (hk : margin.length = k) (hstart : margin <+: line) : Spaces line := by
        rw [← List.prefix_iff_eq_append.mp hstart, hk]
        exact List.forall_mem_append.mpr ⟨hmargin, hrest⟩
      rw [if_pos (List.all_eq_true.mpr hrest), drop_eq_self_iff hne]
      constructor
      · exact fun hk => .inr (.inl ⟨hspaces hk, hk, hall⟩)
      · rintro (hnil | ⟨-, hk, -⟩ | ⟨hsolid, hk, hstart⟩)
        · exact absurd hnil hne
        · exact hk
        · exact absurd (hblank hk hstart) hsolid
    · have hsolid : ¬Spaces line := fun h => hrest fun c hc => h c (List.mem_of_mem_drop hc)
      have hdrop : line.drop k ≠ [] := fun hnil => hrest fun c hc => by simp [hnil] at hc
      rw [if_neg (mt (fun h c hc => List.all_eq_true.mp h c hc) hrest),
        append_drop_eq_self_iff hdrop, KeepsLine]
      simp [hne, hsolid]

/-- A margin has no line end in it. -/
theorem not_mem_margin (hmargin : ∀ c ∈ margin, isMarginChar c = true) :
    ∀ c ∈ margin, isLineBreak c = false := by
  intro c hc
  have h := hmargin c hc
  rw [isMarginChar, Bool.or_eq_true, beq_iff_eq, beq_iff_eq] at h
  rcases h with rfl | rfl <;> rfl

theorem feedsOnly_dedentLine (k : Nat) (h : FeedsOnly line) : FeedsOnly (dedentLine k line) :=
  fun c hc => h c (not_imp_not.mp (not_mem_dedentLine k) hc)

theorem feedsOnly_indentLine (hmargin : ∀ c ∈ margin, isLineBreak c = false) (h : FeedsOnly line) :
    FeedsOnly (indentLine margin line) := by
  intro c hc hbreak
  have hfree : c ∉ margin := fun hmem => by
    rw [hmargin c hmem] at hbreak
    cases hbreak
  exact h c (not_imp_not.mp (not_mem_indentLine hfree) hc) hbreak

/-- **A literal stays where it is moved** exactly if it is steady. -/
theorem moved_eq_self_iff (hmargin : ∀ c ∈ margin, isMarginChar c = true) :
    moved k margin literal = literal ↔ Steady k margin literal := by
  have hfree := not_mem_margin hmargin
  have hspaces : Spaces margin := fun c hc => isBlank_of_isMarginChar (hmargin c hc)
  have hfeed : '\n' ∉ margin := feedless_of_unbroken hfree
  have hmoved (h : FeedsOnly literal) : moved k margin literal = literal ↔
      ∀ line ∈ (splitAtEach (· == '\n') literal).tail, KeepsLine k margin line := by
    have hline (l : List Char) (hl : '\n' ∉ l) : '\n' ∉ (indentLine margin ∘ dedentLine k) l :=
      not_mem_indentLine hfeed (not_mem_dedentLine k hl)
    rw [moved, plainBreaks_of_feedsOnly (h.relinesInside fun _ => feedsOnly_dedentLine k),
      relinesInside_map _ _ fun l => not_mem_dedentLine k, relinesInside_eq_self_iff hline]
    exact forall₂_congr fun l _ => indentLine_dedentLine_eq_self_iff hspaces
  constructor
  · intro h
    have hfeeds : FeedsOnly literal :=
      h ▸ (feedsOnly_plainBreaks _).relinesInside fun _ => feedsOnly_indentLine hfree
    exact ⟨hfeeds, (hmoved hfeeds).mp h⟩
  · exact fun h => (hmoved h.feedsOnly).mpr h.lines

/-- A literal on one line is steady. -/
theorem steady_of_oneLine (h : literal.any isLineBreak = false) : Steady k margin literal := by
  have hunbroken : ∀ c ∈ literal, isLineBreak c = false := by simpa using h
  refine ⟨fun c hc hbreak => ?_, ?_⟩
  · rw [hunbroken c hc] at hbreak
    cases hbreak
  · rw [splitAtEach_feedless (feedless_of_unbroken hunbroken)]
    exact fun line hline => absurd hline List.not_mem_nil

theorem exists_mem_line {c : Char} (h : c ∈ literal) (hc : c ≠ '\n') :
    ∃ line ∈ splitAtEach (· == '\n') literal, c ∈ line := by
  induction literal using feeds_induction with
  | last l hl =>
    rw [splitAtEach_feedless hl]
    exact ⟨l, List.mem_singleton_self l, h⟩
  | line l run hl ih =>
    rw [splitAtEach_feed run hl]
    rcases List.mem_append.mp h with h | h
    · exact ⟨l, List.mem_cons_self, h⟩
    · obtain ⟨line, hline, hmem⟩ := ih ((List.mem_cons.mp h).resolve_left hc)
      exact ⟨line, List.mem_cons_of_mem l hline, hmem⟩

/-- **A steady literal on several lines** had a margin as long as the new one. -/
theorem Steady.length_eq (h : Steady k margin literal) {c : Char} (hc : c ∈ literal)
    (hbreak : isLineBreak c = true) (hlast : ∃ d ∈ literal.getLast?, isBlank d = false) :
    margin.length = k := by
  obtain rfl := h.feedsOnly c hc hbreak
  obtain ⟨d, hd, hsolid⟩ := hlast
  obtain ⟨front, run, rfl, hfront⟩ := List.eq_append_cons_of_mem hc
  have hfeed : d ≠ '\n' := (blank_ne (by decide) d hsolid).symm
  have hrun : d ∈ run := by
    rw [List.getLast?_append, List.getLast?_cons] at hd
    cases hrest : run.getLast? with
    | none =>
      rw [hrest] at hd
      exact absurd (Option.some.inj hd).symm hfeed
    | some e =>
      rw [hrest] at hd
      exact Option.some.inj hd ▸ List.mem_of_getLast? hrest
  obtain ⟨line, hline, hmem⟩ := exists_mem_line hrun hfeed
  have hlines := h.lines line (by rwa [splitAtEach_feed run hfront, List.tail_cons])
  rcases hlines with rfl | ⟨hspaces, -⟩ | ⟨-, hlength, -⟩
  · cases hmem
  · rw [hspaces d hmem] at hsolid
    cases hsolid
  · exact hlength

end

/-! ## Bodies -/

/-- The text of a body, with its margin. -/
def renderedText (b : FunctionBody) (resolve : Option (String → String)) : String :=
  (b.block.map (b.source.render resolve)).getD ""

theorem text_eq (b : FunctionBody) (resolve : Option (String → String)) :
    b.text resolve = dedentBlock (renderedText b resolve) := by
  rw [FunctionBody.text, renderedText]
  cases b.block with
  | none =>
    have hempty : dedentBlock "" = "" := by decide
    exact hempty.symm
  | some t => rfl

/-- **The literals of a body that is moved.** For every body and every reading of its slashes, the
moved text has the literals of the body, each moved. They are the same exactly if all of them are
steady, so that one on several lines needs a margin in the body as long as the new one. -/
theorem movedBody_literals {b : FunctionBody} {resolve : Option (String → String)}
    {slashes : List Bool} {margin : String} {literals : List (List Char)}
    (hmargin : ∀ c ∈ margin.toList, isMarginChar c = true)
    (h : literals? slashes (renderedText b resolve).toList = some literals) :
    literals? slashes (indent (b.text resolve) margin).toList =
        some (literals.map (moved (blockMargin (renderedText b resolve)) margin.toList)) ∧
      (literals? slashes (indent (b.text resolve) margin).toList =
          literals? slashes (renderedText b resolve).toList ↔
        ∀ literal ∈ literals, Steady (blockMargin (renderedText b resolve)) margin.toList literal) ∧
      (literals? slashes (indent (b.text resolve) margin).toList =
          literals? slashes (renderedText b resolve).toList →
        ∀ literal ∈ literals, ∀ c ∈ literal, isLineBreak c = true →
          margin.toList.length = blockMargin (renderedText b resolve)) := by
  have hmoved := literals?_moved hmargin h
  rw [← text_eq] at hmoved
  have hsame : literals? slashes (indent (b.text resolve) margin).toList =
      literals? slashes (renderedText b resolve).toList ↔
        ∀ literal ∈ literals,
          Steady (blockMargin (renderedText b resolve)) margin.toList literal := by
    rw [hmoved, h, Option.some_inj]
    conv_lhs => rhs; rw [← List.map_id literals]
    rw [List.map_inj_left]
    exact forall₂_congr fun literal _ => moved_eq_self_iff hmargin
  refine ⟨hmoved, hsame, fun heq literal hliteral c hc hbreak => ?_⟩
  exact (hsame.mp heq literal hliteral).length_eq hc hbreak (literalsFrom_last h literal hliteral)

/-- The body of the first method in a source. -/
def firstBody? (source : String) : Option FunctionBody :=
  (((Source.ofString source).classModel none).bind (·.methods.head?)).map (·.body)

/-- A class with a method whose body has four blanks as its margin. -/
def greetingSource : String :=
  "export class Note \x7b\n  text() \x7b\n    greet('you');\n    log(`a\n      b`);\n  \x7d\n\x7d"

/-- The literals of the body: one on a line, and one on two lines. -/
def greetingLiterals : List (List Char) := ["'you'".toList, "`a\n      b`".toList]

theorem steady_greetingLiterals :
    ∀ literal ∈ greetingLiterals, Steady 4 "    ".toList literal := by
  have htail : (splitAtEach (· == '\n') "`a\n      b`".toList).tail = ["      b`".toList] := by
    decide
  refine List.forall_mem_cons.mpr ⟨steady_of_oneLine (by decide), List.forall_mem_singleton.mpr
    ⟨by decide, ?_⟩⟩
  rw [htail, List.forall_mem_singleton]
  exact .inr (.inr ⟨by decide, rfl, by decide⟩)

/-- Moved to a margin of four blanks, both literals stay. -/
theorem movedBody_literals_greeting :
    ∃ b, firstBody? greetingSource = some b ∧
      literals? [] (renderedText b none).toList = some greetingLiterals ∧
      literals? [] (indent (b.text none) "    ").toList = some greetingLiterals := by
  have hread : (firstBody? greetingSource).map (fun b =>
      (literals? [] (renderedText b none).toList, blockMargin (renderedText b none))) =
      some (some greetingLiterals, 4) := by
    decide +kernel
  obtain ⟨b, hb, h⟩ := Option.map_eq_some_iff.mp hread
  obtain ⟨hliterals, hblock⟩ := Prod.mk.inj h
  have hmargin : ∀ c ∈ "    ".toList, isMarginChar c = true := List.all_eq_true.mp rfl
  have hsame := (movedBody_literals hmargin hliterals).2.1.mpr
    (by rw [hblock]; exact steady_greetingLiterals)
  exact ⟨b, hb, hliterals, hsame.trans hliterals⟩

/-- The second line of a template literal gets the margin of its new place. -/
theorem changed_note :
    (firstBody? "export class Note \x7b\n  text() \x7b\n    log(`a\nb`);\n  \x7d\n\x7d").map
        (fun b => (literals? [] (renderedText b none).toList,
          literals? [] (indent (b.text none) "    ").toList)) =
      some (some ["`a\nb`".toList], some ["`a\n    b`".toList]) := by
  decide +kernel

end Trellis.Output
