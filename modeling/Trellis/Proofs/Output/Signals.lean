import Mathlib.Data.Bool.AllAny
import Mathlib.Data.List.TakeWhile
import Trellis.Output.References
import Trellis.Proofs.Output.Expression
import Trellis.Proofs.Text.Substitution

/-!
# Where the value of a signal is taken

`.value` is put behind the name of a signal by the characters around it, in the whole text of a
component.

* `Caught` are the places of a name where that happens; `substituteFrom_signalRule`: the rule fills
  exactly these.
* `signalReferences_exact`: an expression between braces asks for the value wherever it reads the
  name exactly if these are the places that are caught, and a text stays as it is exactly if no
  place is.
* `not_valued_count`: in `count + 1` the name is read and not caught, and in static texts and the
  values of attributes it is caught.
-/

namespace Trellis.Output

open Trellis.Text Trellis.Text.Marked

variable {name before after s : List Char}

/-! ## The places that are caught -/

theorem opensReference_iff {c : Char} : opensReference c = true ↔
    c = '\x7b' ∨ c = '(' ∨ c = '!' ∨ isBlank c = true := by
  simp [opensReference, or_assoc]

/-- The name between these parts of a text is taken for a signal that is read. -/
structure Caught (before after : List Char) : Prop where
  /-- A brace, a parenthesis, an exclamation mark or white space stands before the name. -/
  opened : ∃ t c, before = t ++ [c] ∧ (c = '\x7b' ∨ c = '(' ∨ c = '!' ∨ isBlank c = true)
  /-- Its value is not asked for. -/
  untaken : ¬".value".toList <+: after
  /-- White space and one of certain marks follow. -/
  followed : ∃ space c rest, after = space ++ c :: rest ∧ (∀ d ∈ space, isBlank d = true) ∧
    c ∈ "\x7d&|?:.)]!=<>".toList

theorem isRead_iff : isRead after = true ↔ ¬".value".toList <+: after ∧
    ∃ space c rest, after = space ++ c :: rest ∧ (∀ d ∈ space, isBlank d = true) ∧
      c ∈ "\x7d&|?:.)]!=<>".toList := by
  have hmark : ∀ c ∈ "\x7d&|?:.)]!=<>".toList, isBlank c = false :=
    List.all_iff_forall_prop.mp (by decide)
  rw [isRead, Bool.and_eq_true, Bool.not_eq_true', ← Bool.not_eq_true, List.isPrefixOf_iff_prefix]
  refine and_congr_right fun _ => ?_
  constructor
  · intro h
    cases hrest : after.dropWhile isBlank with
    | nil => simp [hrest] at h
    | cons c rest =>
      refine ⟨after.takeWhile isBlank, c, rest, ?_, fun d hd => ?_, ?_⟩
      · rw [← hrest, List.takeWhile_append_dropWhile]
      · exact List.mem_takeWhile_imp hd
      · simpa [hrest, followsReference] using h
  · rintro ⟨space, c, rest, rfl, hspace, hc⟩
    rw [List.dropWhile_append_of_pos hspace, List.dropWhile_cons_of_neg (by simp [hmark c hc])]
    simpa [followsReference] using hc

/-- A text that ends with the name, before one with which it is read. -/
def isCaught (name before after : List Char) : Bool :=
  name.isSuffixOf before &&
    ((before.take (before.length - name.length)).getLast?.map opensReference).getD false &&
    isRead after

theorem isCaught_append : isCaught name (before ++ name) after = true ↔ Caught before after := by
  have htake : (before ++ name).take ((before ++ name).length - name.length) = before := by simp
  rw [isCaught, htake, Bool.and_eq_true, Bool.and_eq_true, isRead_iff]
  constructor
  · rintro ⟨⟨-, hopened⟩, huntaken, hfollowed⟩
    refine ⟨?_, huntaken, hfollowed⟩
    rcases List.eq_nil_or_concat' before with rfl | ⟨t, c, rfl⟩
    · simp at hopened
    · exact ⟨t, c, rfl, opensReference_iff.mp (by simpa using hopened)⟩
  · rintro ⟨⟨t, c, rfl, hc⟩, huntaken, hfollowed⟩
    refine ⟨⟨?_, ?_⟩, huntaken, hfollowed⟩
    · exact List.isSuffixOf_iff_suffix.mpr (List.suffix_append _ name)
    · simpa using opensReference_iff.mpr hc

theorem isCaught_iff : isCaught name s after = true ↔
    ∃ before, s = before ++ name ∧ Caught before after := by
  constructor
  · intro h
    obtain ⟨before, rfl⟩ : name <:+ s := by
      rw [isCaught, Bool.and_eq_true, Bool.and_eq_true] at h
      exact List.isSuffixOf_iff_suffix.mp h.1.1
    exact ⟨before, rfl, isCaught_append.mp h⟩
  · rintro ⟨before, rfl, h⟩
    exact isCaught_append.mpr h

/-! ## The rule fills them -/

/-- The name has characters, and none of them opens a reference. -/
def IsClosed (name : List Char) : Prop := name ≠ [] ∧ ∀ c ∈ name, opensReference c = false

/-- The name has characters, and it does not start again behind one that opens a reference, so two
of its places that are caught do not overlap. -/
def StandsAlone (name : List Char) : Prop :=
  name ≠ [] ∧ ∀ x g v, name = x ++ g :: v → opensReference g = true → ¬v <+: name

theorem IsClosed.standsAlone (h : IsClosed name) : StandsAlone name := by
  refine ⟨h.1, fun x g v hname hg _ => ?_⟩
  have hopens := h.2 g (by simp [hname])
  rw [hg] at hopens
  cases hopens

/-- Every place that is caught in a text lies behind a name that is opened in the text; `before` is
what stands before the text. -/
def OpenedWithin (name before s : List Char) : Prop :=
  ∀ t u, s = t ++ u → t ≠ [] → isCaught name (before ++ t) u = true →
    ∃ x g, t = x ++ g :: name ∧ opensReference g = true

theorem openedWithin_nil : OpenedWithin name [] s := by
  intro t u _ _ h
  obtain ⟨_, rfl, ⟨x, g, rfl, hg⟩, -, -⟩ := isCaught_iff.mp h
  exact ⟨x, g, by simp, opensReference_iff.mpr hg⟩

/-- A character that opens no name that is read. -/
theorem OpenedWithin.tail {c : Char} (h : OpenedWithin name before (c :: s))
    (hc : ¬∃ after, s = name ++ after ∧ opensReference c = true ∧ isRead after = true) :
    OpenedWithin name (before ++ [c]) s := by
  rintro t u rfl _ hcaught
  have hread : isRead u = true := by
    rw [isCaught, Bool.and_eq_true] at hcaught
    exact hcaught.2
  rw [List.append_assoc, List.singleton_append] at hcaught
  obtain ⟨x, g, ht, hg⟩ := h (c :: t) u rfl (List.cons_ne_nil c t) hcaught
  obtain ⟨rfl, hname⟩ | ⟨x, rfl, rfl⟩ := List.cons_eq_append_iff.mp ht
  · obtain ⟨rfl, rfl⟩ := List.cons.inj hname
    exact absurd ⟨u, rfl, hg, hread⟩ hc
  · exact ⟨x, g, rfl, hg⟩

/-- A name that is caught does not overlap with the next one. -/
theorem OpenedWithin.drop {c : Char} (hname : StandsAlone name)
    (h : OpenedWithin name before (c :: (name ++ after))) :
    OpenedWithin name (before ++ c :: name) after := by
  rintro t u rfl hnil hcaught
  rw [List.append_assoc] at hcaught
  obtain ⟨x, g, ht, hg⟩ := h (c :: name ++ t) u (by simp) (by simp) hcaught
  rcases List.append_eq_append_iff.mp ht with ⟨z, rfl, rfl⟩ | ⟨z, hx, hz⟩
  · exact ⟨z, g, rfl, hg⟩
  · obtain ⟨rfl, rfl⟩ | ⟨z, rfl, hz⟩ := List.cons_eq_append_iff.mp hz
    · exact ⟨[], g, rfl, hg⟩
    · obtain ⟨rfl, hx⟩ | ⟨x, rfl, rfl⟩ := List.cons_eq_append_iff.mp hx
      · obtain ⟨rfl, rfl⟩ := List.cons.inj hx
        exact absurd (List.self_eq_append_right.mp hz) hnil
      · exact absurd ⟨t, (List.cons.inj hz).2.symm⟩ (hname.2 x g z rfl hg)

theorem signalRule_eq_some {c : Char} {prev : Option Char}
    (h : opensReference c = true ∧ isRead after = true) :
    signalRule name prev (c :: (name ++ after)) =
      some (name.length + 1, c :: name ++ ".value".toList) := by
  simp [signalRule, h]

theorem signalRule_eq_none {c : Char} {prev : Option Char}
    (h : ¬∃ after, s = name ++ after ∧ opensReference c = true ∧ isRead after = true) :
    signalRule name prev (c :: s) = none := by
  rw [signalRule]
  refine if_neg fun hrule => h ?_
  simp only [Bool.and_eq_true, List.isPrefixOf_iff_prefix] at hrule
  obtain ⟨⟨hc, after, rfl⟩, hread⟩ := hrule
  exact ⟨after, rfl, hc, by simpa using hread⟩

/-- A name that is read has its mark behind it. -/
theorem markedWhere_caught {c : Char} (hname : StandsAlone name)
    (h : OpenedWithin name before (c :: (name ++ after)))
    (hc : opensReference c = true ∧ isRead after = true) :
    markedWhere (isCaught name) before (c :: (name ++ after)) =
      (c, false) :: (markedAtEnd name ++
        markedWhere (isCaught name) (before ++ c :: name) after) := by
  obtain ⟨init, last, rfl⟩ := (List.eq_nil_or_concat' name).resolve_left hname.1
  have hcaught : isCaught (init ++ [last]) (before ++ c :: init ++ [last]) after = true := by
    obtain ⟨huntaken, hfollowed⟩ := isRead_iff.mp hc.2
    have hopened := opensReference_iff.mp hc.1
    exact isCaught_iff.mpr ⟨before ++ [c], by simp, ⟨before, c, rfl, hopened⟩, huntaken, hfollowed⟩
  have hinside : markedWhere (isCaught (init ++ [last])) before (c :: init ++ last :: after) =
      unmarked (c :: init) ++
        markedWhere (isCaught (init ++ [last])) (before ++ c :: init) (last :: after) := by
    refine markedWhere_append fun t₁ t₂ ht hnil => Bool.eq_false_iff.mpr fun hplace => ?_
    obtain ⟨x, g, rfl, -⟩ := h t₁ (t₂ ++ last :: after)
      (by rw [← List.append_assoc, ← ht]; simp) hnil hplace
    have hlength := congrArg List.length ht
    simp only [List.length_append, List.length_cons, List.length_nil] at hlength
    omega
  calc markedWhere (isCaught (init ++ [last])) before (c :: (init ++ [last] ++ after))
      = markedWhere (isCaught (init ++ [last])) before (c :: init ++ last :: after) := by simp
    _ = unmarked (c :: init) ++ (last, true) ::
          markedWhere (isCaught (init ++ [last])) (before ++ c :: init ++ [last]) after := by
        rw [hinside, markedWhere, hcaught]
    _ = _ := by simp [unmarked, markedAtEnd_concat]

/-- The rule puts its text behind the names that are caught. -/
theorem substituteFrom_signalRule (hname : StandsAlone name) (h : OpenedWithin name before s)
    (prev : Option Char) : substituteFrom (signalRule name) prev 0 s =
      filled valueText (markedWhere (isCaught name) before s) := by
  induction hlength : s.length using Nat.strong_induction_on generalizing before s prev with
  | _ n ih =>
    subst hlength
    cases s with
    | nil => rfl
    | cons c s =>
      by_cases hmatch : ∃ after, s = name ++ after ∧ opensReference c = true ∧ isRead after = true
      · obtain ⟨after, rfl, hc⟩ := hmatch
        have hshort : after.length < (c :: (name ++ after)).length := by
          rw [List.length_cons, List.length_append]
          omega
        have hrest := ih _ hshort (h.drop hname) (name.getLast?.or (some c)) rfl
        rw [substituteFrom_match (signalRule_eq_some hc), hrest, markedWhere_caught hname h hc,
          filled_cons, filled_append, filled_markedAtEnd _ hname.1]
        rfl
      · have hcaught : isCaught name (before ++ [c]) s = false := by
          refine Bool.eq_false_iff.mpr fun hplace => hname.1 ?_
          obtain ⟨x, g, hx, -⟩ := h [c] s rfl (List.cons_ne_nil c []) hplace
          have hlength := congrArg List.length hx
          simp only [List.length_append, List.length_cons, List.length_nil] at hlength
          exact List.length_eq_zero_iff.mp (by omega)
        have hrest := ih _ (Nat.lt_succ_self s.length) (h.tail hmatch) (some c) rfl
        rw [substituteFrom_pass (signalRule_eq_none hmatch), markedWhere, hcaught, hrest]
        rfl

/-! ## Names of signals -/

theorem opensReference_identifier {c : Char} (h : opensReference c = true) :
    isIdentifierChar c = false := by
  rcases opensReference_iff.mp h with rfl | rfl | rfl | h
  · decide
  · decide
  · decide
  · simp [isIdentifierChar, h]

theorem Identifier.isClosed (name : Identifier) : IsClosed name.chars := by
  refine ⟨name.chars_ne_nil, fun c hc => ?_⟩
  refine Bool.eq_false_iff.mpr fun hopens => ?_
  exact absurd (name.char_of_mem hc) (Bool.eq_false_iff.mp (opensReference_identifier hopens))

/-- The text of a component with one signal. -/
theorem toList_signalReferences (jsx : String) (name : Identifier) :
    (signalReferences jsx [name.text]).toList =
      filled valueText (markedWhere (isCaught name.chars) [] jsx.toList) := by
  rw [signalReferences, List.foldl_cons, List.foldl_nil, substitute, Identifier.text,
    String.toList_ofList, String.toList_ofList,
    substituteFrom_signalRule name.isClosed.standsAlone openedWithin_nil]

/-- The marks are at the places that are caught. -/
theorem at_caught {b : List Char} : (markedWhere (isCaught name) [] s).At b after ↔
    b ++ after = s ∧ ∃ before, b = before ++ name ∧ Caught before after := by
  rw [at_markedWhere, List.nil_append, isCaught_iff]
  refine ⟨And.right, fun h => ⟨?_, h⟩⟩
  obtain ⟨-, before, rfl, ⟨t, c, rfl, -⟩, -⟩ := h
  simp

/-! ## Expressions and texts -/

/-- An expression between braces. -/
def braced (s : List Char) : List Char := '\x7b' :: s ++ ['\x7d']

/-- The same with the marks of the names that are read. -/
def Expression.bracedMarks (e : Expression) (name : Identifier) : Marked :=
  unmarked ['\x7b'] ++ e.marked name ++ unmarked ['\x7d']

/-- Between braces, the expression reads the name at this place. -/
def Expression.Reads (e : Expression) (name : Identifier) (before after : List Char) : Prop :=
  (e.bracedMarks name).At (before ++ name.chars) after

theorem plain_bracedMarks (e : Expression) (name : Identifier) :
    (e.bracedMarks name).plain = braced e.text := by
  simp [Expression.bracedMarks, braced]

theorem filled_bracedMarks (e : Expression) (name : Identifier) :
    (e.bracedMarks name).filled valueText = braced (e.valued name).text := by
  simp [Expression.bracedMarks, braced, Expression.filled_marked]

theorem follows_bracedMarks {e : Expression} (he : e.wordsApart = true) (name : Identifier) :
    Follows name.chars Expression.IsBorder [] (e.bracedMarks name) := by
  have hbrace : Expression.EndsWithBorder ([] ++ (unmarked ['\x7b']).plain) :=
    ⟨[], '\x7b', rfl, by decide⟩
  exact (follows_unmarked.append (Expression.follows_marked he (.inl hbrace))).append
    follows_unmarked

theorem follows_caught (name : Identifier) :
    Follows name.chars Expression.IsBorder [] (markedWhere (isCaught name.chars) [] s) := by
  intro b a hat
  obtain ⟨-, _, rfl, ⟨x, g, rfl, hg⟩, -⟩ := at_caught.mp hat
  have hopens : opensReference g = true := opensReference_iff.mpr hg
  refine ⟨x, g, by simp, opensReference_identifier hopens, ?_⟩
  rintro rfl
  revert hopens
  decide

/-- Behind a border starts no end of `.value`, and no end of a name. -/
theorem not_mem_of_isBorder {g : Char} (hg : Expression.IsBorder g) (name : Identifier) :
    g ∉ name.chars ∧ g ∉ valueText := by
  have hno (n : Identifier) : g ∉ n.chars := fun h =>
    absurd (n.char_of_mem h) (Bool.eq_false_iff.mp hg.1)
  refine ⟨hno name, fun h => ?_⟩
  rcases List.mem_cons.mp h with rfl | h
  · exact hg.2 rfl
  · exact hno valueField h

/-- The rule does to an expression what the values of its names ask for exactly if it marks the same
places. -/
theorem filled_bracedMarks_iff {e : Expression} (he : e.wordsApart = true) (name : Identifier) :
    filled valueText (markedWhere (isCaught name.chars) [] (braced e.text)) =
        (e.bracedMarks name).filled valueText ↔
      ∀ before after, braced e.text = before ++ name.chars ++ after →
        (e.Reads name before after ↔ Caught before after) := by
  have hplain : (markedWhere (isCaught name.chars) [] (braced e.text)).plain =
      (e.bracedMarks name).plain := by
    rw [plain_markedWhere, plain_bracedMarks]
  constructor
  · intro h before after hplace
    have hdot : '.' ∉ name.chars := fun hmem => absurd (name.char_of_mem hmem) (by decide)
    have hmarks := eq_of_filled_eq rfl hdot (fun g hg => not_mem_of_isBorder hg name)
      (follows_caught name) (follows_bracedMarks he name) hplain h
    rw [Expression.Reads, ← hmarks, at_caught]
    constructor
    · rintro ⟨-, before', hbefore, hcaught⟩
      rwa [List.append_cancel_right hbefore]
    · exact fun hcaught => ⟨hplace.symm, before, rfl, hcaught⟩
  · intro h
    refine congrArg _ (eq_of_at_iff hplain fun b after => ?_)
    rw [at_caught]
    constructor
    · rintro ⟨hplace, before, rfl, hcaught⟩
      exact (h before after hplace.symm).mpr hcaught
    · intro hat
      obtain ⟨x, g, rfl, -⟩ := follows_bracedMarks he name b after hat
      have hplace := (append_of_at hat).symm.trans (plain_bracedMarks e name)
      have hb : x ++ g :: name.chars = (x ++ [g]) ++ name.chars := by simp
      rw [hb] at hat hplace
      refine ⟨by simpa using hplace, x ++ [g], hb, ?_⟩
      exact (h (x ++ [g]) after hplace.symm).mp hat

/-- **Values of signals.** `.value` is put into a text exactly behind the places of the name that
are caught. So an expression between braces asks for the value wherever it reads the name, and
nothing else of it changes, exactly if of all places of the name those at which it is read are those
that are caught; and a text stays as it is exactly if none is. -/
theorem signalReferences_exact (name : Identifier) :
    (∀ jsx : String, ∃ m : Marked, m.plain = jsx.toList ∧
      m.filled valueText = (signalReferences jsx [name.text]).toList ∧
      ∀ b a, m.At b a ↔ b ++ a = jsx.toList ∧ ∃ before, b = before ++ name.chars ∧
        Caught before a) ∧
    (∀ e : Expression, e.wordsApart = true →
      (signalReferences (String.ofList (braced e.text)) [name.text] =
          String.ofList (braced (e.valued name).text) ↔
        ∀ before after, braced e.text = before ++ name.chars ++ after →
          (e.Reads name before after ↔ Caught before after))) ∧
    ∀ jsx : String, signalReferences jsx [name.text] = jsx ↔
      ∀ before after, jsx.toList = before ++ name.chars ++ after → ¬Caught before after := by
  refine ⟨fun jsx => ?_, fun e he => ?_, fun jsx => ?_⟩
  · exact ⟨markedWhere (isCaught name.chars) [] jsx.toList, plain_markedWhere,
      (toList_signalReferences jsx name).symm, fun _ _ => at_caught⟩
  · rw [← String.toList_inj, toList_signalReferences, String.toList_ofList, String.toList_ofList,
      ← filled_bracedMarks]
    exact filled_bracedMarks_iff he name
  · have hput : valueText ≠ [] := List.cons_ne_nil _ _
    rw [← String.toList_inj, toList_signalReferences]
    nth_rewrite 2 [← plain_markedWhere (p := isCaught name.chars) (s := jsx.toList)]
    rw [filled_eq_plain_iff hput]
    constructor
    · intro h before after hplace hcaught
      exact h _ after (at_caught.mpr ⟨hplace.symm, before, rfl, hcaught⟩)
    · intro h b after hat
      obtain ⟨hplace, before, rfl, hcaught⟩ := at_caught.mp hat
      exact h before after hplace.symm hcaught

/-! ### Texts in which the places agree, and texts in which they do not -/

/-- The expression `!open && x`. -/
def openExpression : Expression :=
  .between (.spaced noSpace (.before ⟨"!", by decide⟩ (.word ⟨"open".toList, by decide, by decide⟩))
      ⟨[' '], rfl⟩) ⟨"&&", by decide⟩
    (.spaced ⟨[' '], rfl⟩ (.word ⟨['x'], by decide, by decide⟩) noSpace)

/-- The expression `count + 1`. -/
def countExpression : Expression :=
  .between (.spaced noSpace (.word ⟨"count".toList, by decide, by decide⟩) ⟨[' '], rfl⟩)
    ⟨"+", by decide⟩ (.spaced ⟨[' '], rfl⟩ (.literal ⟨['1'], by decide⟩) noSpace)

theorem signalReferences_exact_open :
    openExpression.wordsApart = true ∧
      String.ofList (braced openExpression.text) = "\x7b!open && x\x7d" ∧
      signalReferences "\x7b!open && x\x7d" ["open"] = "\x7b!open.value && x\x7d" ∧
      ∀ before after, braced openExpression.text = before ++ "open".toList ++ after →
        (openExpression.Reads ⟨"open".toList, by decide, by decide⟩ before after ↔
          Caught before after) := by
  have hexact := (signalReferences_exact ⟨"open".toList, by decide, by decide⟩).2.1 openExpression
    (by decide)
  exact ⟨by decide, by decide +kernel, by decide +kernel, hexact.mp (by decide +kernel)⟩

/-- Before a plus sign the signal itself is taken, and words of static texts and of attribute values
are taken for signals. -/
theorem not_valued_count :
    (countExpression.wordsApart = true ∧
      String.ofList (braced countExpression.text) = "\x7bcount + 1\x7d" ∧
      String.ofList (braced (countExpression.valued ⟨"count".toList, by decide, by decide⟩).text) =
        "\x7bcount.value + 1\x7d" ∧
      signalReferences "\x7bcount + 1\x7d" ["count"] = "\x7bcount + 1\x7d") ∧
    signalReferences "<p title=\"The count.\">The count</p>" ["count"] =
      "<p title=\"The count.value.\">The count.value</p>" := by
  decide +kernel

end Trellis.Output
