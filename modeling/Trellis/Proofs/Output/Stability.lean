import Trellis.Proofs.Output.WrittenNames
import Trellis.Proofs.Text.Refilled
import Trellis.Proofs.Text.Segments

/-!
# Signals in any order

The values of signals are taken name by name, each time in the text that the names before have
left. What they have put in is `.value`, which starts with a character of no name, and ends where
the name before it has ended.

* `valued_filled`: in a text that is filled for other names, a name is caught where it is caught in
  the text itself, at the places at which it is still whole.
* `valued_of_taken`: so no name is caught again after it was taken, and none is that was not caught
  before (`valued_valuedAll`).
* `not_isCaught_inside`: a name is caught inside of a place of another one only if it is spelled
  like a number in it (`SpelledIn`). Otherwise the names are taken all at once (`valuedAll_eq`), and
  else the order decides (`valued_ne_of_spelledIn`).
* `signalReferences_stable`: taking values twice is taking them once, for every list of names, and
  the lists with the same names give the same text for every text exactly if no name is spelled like
  a number in another.
-/

namespace Trellis.Output

open Trellis.Text Trellis.Text.Marked

variable {before after s t w : List Char} {n m : WrittenName}

/-! ## What stands around a place -/

theorem isCaught_iff_suffix {name : List Char} : isCaught name before after = true ↔
    (∃ g, opensReference g = true ∧ g :: name <:+ before) ∧ isRead after = true := by
  rw [isCaught_iff]
  constructor
  · rintro ⟨_, rfl, ⟨x, g, rfl, hg⟩, huntaken, hfollowed⟩
    refine ⟨⟨g, opensReference_iff.mpr hg, x, by simp⟩, isRead_iff.mpr ⟨huntaken, hfollowed⟩⟩
  · rintro ⟨⟨g, hg, x, rfl⟩, hread⟩
    obtain ⟨huntaken, hfollowed⟩ := isRead_iff.mp hread
    exact ⟨x ++ [g], by simp, ⟨x, g, rfl, opensReference_iff.mp hg⟩, huntaken, hfollowed⟩

theorem isRead_cons {c : Char} (hc : isBlank c = false) (hdot : c ≠ '.') :
    isRead (c :: s) = followsReference c := by
  have hvalue : ".value".toList.isPrefixOf (c :: s) = false := by
    refine Bool.eq_false_iff.mpr fun h => hdot ?_
    obtain ⟨hhead, -⟩ := List.cons_prefix_cons.mp (List.isPrefixOf_iff_prefix.mp h)
    exact hhead.symm
  rw [isRead, hvalue, List.dropWhile_cons_of_neg (by simp [hc])]
  rfl

theorem follows_or_blank_of_isRead {c : Char} (h : isRead (c :: s) = true) :
    followsReference c = true ∨ isBlank c = true := by
  by_contra hno
  rw [not_or, Bool.not_eq_true, Bool.not_eq_true] at hno
  have hdot : c ≠ '.' := by
    rintro rfl
    exact absurd hno.1 (by decide)
  rw [isRead_cons hno.2 hdot, hno.1] at h
  cases h

theorem isRead_nil : isRead [] = false := by decide

theorem isRead_valueText (s : List Char) : isRead (valueText ++ s) = false := by
  have hvalue : ".value".toList.isPrefixOf (valueText ++ s) = true :=
    List.isPrefixOf_iff_prefix.mpr ⟨s, rfl⟩
  rw [isRead, hvalue]
  rfl

/-- What is put in opens no name. -/
theorem not_mem_valueText {g : Char} (hg : opensReference g = true) : g ∉ valueText := by
  have hall : ∀ c ∈ valueText, opensReference c = false :=
    List.all_iff_forall_prop.mp (by decide)
  intro hmem
  rw [hall g hmem] at hg
  cases hg

/-! ## Taking values -/

/-- The text with the value of one signal taken. -/
def WrittenName.valued (n : WrittenName) (s : List Char) : List Char :=
  (markedWhere (isCaught n.chars) [] s).filled valueText

/-- The text with the values of signals taken, one after the other. -/
def valuedAll (names : List WrittenName) (s : List Char) : List Char :=
  names.foldl (fun s n => n.valued s) s

theorem toList_signalReferences_written (jsx : String) (names : List WrittenName) :
    (signalReferences jsx (names.map WrittenName.text)).toList =
      valuedAll names jsx.toList := by
  induction names generalizing jsx with
  | nil => rfl
  | cons n names ih =>
    have hfirst : (substitute (signalRule n.text.toList) jsx).toList = n.valued jsx.toList := by
      rw [substitute, WrittenName.text, String.toList_ofList, String.toList_ofList,
        substituteFrom_signalRule n.standsAlone openedWithin_nil, WrittenName.valued]
    rw [List.map_cons, signalReferences, List.foldl_cons, valuedAll, List.foldl_cons, ← hfirst]
    exact ih _

/-- A text stays as it is exactly if the name is caught nowhere in it. -/
theorem valued_eq_self_iff : n.valued s = s ↔
    ∀ b a, b ++ a = s → isCaught n.chars b a = false := by
  have hput : valueText ≠ [] := List.cons_ne_nil _ _
  have hplain : (markedWhere (isCaught n.chars) [] s).plain = s := plain_markedWhere
  rw [WrittenName.valued]
  nth_rewrite 2 [← hplain]
  rw [filled_eq_plain_iff hput]
  constructor
  · intro h b a hplace
    refine Bool.eq_false_iff.mpr fun hcaught => h b a (at_markedWhere.mpr ⟨?_, hplace, hcaught⟩)
    rintro rfl
    obtain ⟨⟨g, -, hsuffix⟩, -⟩ := isCaught_iff_suffix.mp hcaught
    exact absurd hsuffix.length_le (by simp)
  · intro h b a hat
    obtain ⟨-, hplace, hcaught⟩ := at_markedWhere.mp hat
    rw [List.nil_append, h b a hplace] at hcaught
    cases hcaught

/-! ## A name in a filled text -/

/-- The places are behind names that are opened. -/
def BehindNames (k : List Char → List Char → Bool) : Prop :=
  ∀ b a, k b a = true →
    ∃ (m : WrittenName) (g : Char), opensReference g = true ∧ g :: m.chars <:+ b

variable {k : List Char → List Char → Bool}

theorem behindNames_isCaught (n : WrittenName) : BehindNames (isCaught n.chars) := by
  intro b a hcaught
  obtain ⟨⟨g, hg, hsuffix⟩, -⟩ := isCaught_iff_suffix.mp hcaught
  exact ⟨n, g, hg, hsuffix⟩

/-- No mark stands behind white space. -/
theorem BehindNames.not_blank (hk : BehindNames k) {pre : List Char} {l r : Marked} {c : Char}
    (h : markedWhere k pre s = l ++ (c, true) :: r) : isBlank c = false := by
  obtain ⟨-, -, hplace⟩ := at_markedWhere.mp ⟨l, c, r, h, rfl, rfl⟩
  obtain ⟨m, g, -, hsuffix⟩ := hk _ _ hplace
  obtain ⟨init, d, hd⟩ := (List.eq_nil_or_concat' m.chars).resolve_left m.chars_ne_nil
  obtain ⟨x, hx⟩ := hsuffix
  have hlast : (x ++ g :: init) ++ [d] = (pre ++ plain l) ++ [c] := by simpa [hd] using hx
  obtain ⟨-, hdc⟩ := List.append_inj' hlast rfl
  obtain rfl : d = c := by simpa using hdc
  exact m.worded.not_blank_of_mem (by simp [hd])

/-- No mark stands in a value that is asked for, before its last character. -/
theorem BehindNames.not_in_value (hk : BehindNames k) {pre : List Char}
    (ht : t ++ w = ['.', 'v', 'a', 'l', 'u']) (hnil : t ≠ []) : k (pre ++ t) after = false := by
  refine Bool.eq_false_iff.mpr fun hplace => ?_
  obtain ⟨m, g, hg, hsuffix⟩ := hk _ _ hplace
  obtain ⟨rfl, -⟩ | ⟨t, rfl, htail⟩ := List.cons_eq_append_iff.mp ht.symm
  · exact hnil rfl
  · -- a name and what opens it do not reach over a dot
    have hin := ((suffix_append_cons_iff (m.dot_not_mem hg) _).mp hsuffix).subset
      List.mem_cons_self
    have hmem : g ∈ ['v', 'a', 'l', 'u'] := by
      rw [htail]
      exact List.mem_append_left _ hin
    have hall : ∀ c ∈ ['v', 'a', 'l', 'u'], opensReference c = false :=
      List.all_iff_forall_prop.mp (by decide)
    rw [hall g hmem] at hg
    cases hg

/-- The value is asked for in the filled text where it is asked for in the text. -/
theorem value_prefix_back (hk : BehindNames k) (pre s : List Char) :
    ".value".toList <+: back valueText k pre s ↔ ".value".toList <+: s := by
  constructor
  · intro h
    have hdot : '.' ∉ "value".toList := by decide
    have hplain := prefix_plain_of_filled rfl hdot h
    rwa [plain_markedWhere] at hplain
  · rintro ⟨r, rfl⟩
    have hnone : markedWhere k pre (['.', 'v', 'a', 'l', 'u'] ++ 'e' :: r) =
        unmarked ['.', 'v', 'a', 'l', 'u'] ++
          markedWhere k (pre ++ ['.', 'v', 'a', 'l', 'u']) ('e' :: r) :=
      markedWhere_append fun _ _ ht hnil => hk.not_in_value ht.symm hnil
    rw [back]
    change _ <+: (markedWhere k pre (['.', 'v', 'a', 'l', 'u'] ++ 'e' :: r)).filled valueText
    rw [hnone, filled_append, filled_unmarked, markedWhere, filled_cons]
    exact ⟨_, rfl⟩

/-- What follows a place is as much a name's following in the filled text as in the text. -/
theorem isRead_back (hk : BehindNames k) (pre s : List Char) :
    isRead (back valueText k pre s) = isRead s := by
  have hvalue : ".value".toList.isPrefixOf (back valueText k pre s) =
      ".value".toList.isPrefixOf s := by
    rw [Bool.eq_iff_iff, List.isPrefixOf_iff_prefix, List.isPrefixOf_iff_prefix,
      value_prefix_back hk]
  have hhead : ((back valueText k pre s).dropWhile isBlank).head? =
      (s.dropWhile isBlank).head? := by
    rw [back, head?_dropWhile_filled fun _ _ _ => hk.not_blank, plain_markedWhere]
  rw [isRead, isRead, hvalue, hhead]

/-- A name that is opened before a place of the filled text is opened before it in the text, and
nothing was put into it. -/
theorem unmarked_of_suffix_front {g : Char} (hg : opensReference g = true)
    (h : g :: n.chars <:+ front valueText k before s) :
    ∃ l, before = plain l ++ g :: n.chars ∧
      markedWhere (fun b a => k b (a ++ s)) [] before = l ++ unmarked (g :: n.chars) := by
  obtain ⟨l, hl⟩ := unmarked_of_suffix_filled rfl (not_mem_valueText hg) n.worded.dot_not_mem h
  refine ⟨l, ?_, hl⟩
  have hplain := congrArg plain hl
  rwa [plain_markedWhere, plain_append, plain_unmarked] at hplain

/-- **A name in a filled text** is caught where it is in the text itself and nothing was put in, as
`q` says for the places at which it is whole in the filled text. -/
theorem valued_filled (hk : BehindNames k) (n : WrittenName) (w : List Char)
    {q : List Char → List Char → Bool}
    (hq : ∀ b a, w = b ++ a → k b a = false → (q b a = true ↔ isRead a = true ∧
      ∃ g, opensReference g = true ∧ g :: n.chars <:+ front valueText k b a)) :
    n.valued ((markedWhere k [] w).filled valueText) =
      (markedWhere (fun b a => k b a || q b a) [] w).filled valueText := by
  refine filled_filled w (fun pre c s _ _ p₁ p₂ hput => ?_) fun pre c s hw hno => ?_
  · refine Bool.eq_false_iff.mpr fun hcaught => ?_
    obtain ⟨⟨g, hg, hsuffix⟩, hread⟩ := isCaught_iff_suffix.mp hcaught
    cases p₁ with
    | nil =>
      rw [List.nil_append] at hput
      rw [← hput, isRead_valueText] at hread
      cases hread
    | cons d p₁ =>
      obtain ⟨rfl, htail⟩ := List.cons.inj hput
      have hsplit : front valueText k pre (c :: s) ++ c :: '.' :: p₁ =
          (front valueText k pre (c :: s) ++ [c]) ++ '.' :: p₁ := by simp
      rw [hsplit] at hsuffix
      have hin := ((suffix_append_cons_iff (n.dot_not_mem hg) _).mp hsuffix).subset
        List.mem_cons_self
      refine not_mem_valueText hg ?_
      rw [hput]
      exact List.mem_append_left _ (List.mem_cons_of_mem _ hin)
  · have hfront : front valueText k pre (c :: s) ++ [c] = front valueText k (pre ++ [c]) s := by
      rw [front_concat, hno, if_neg Bool.false_ne_true]
    rw [hfront, Bool.eq_iff_iff, isCaught_iff_suffix, isRead_back hk,
      hq (pre ++ [c]) s (by simpa using hw) hno, and_comm]

/-- A name that is whole in a filled text only where it is not read is not caught there. -/
theorem valued_of_none (hk : BehindNames k)
    (h : ∀ b a, w = b ++ a → k b a = false → isRead a = true → ∀ g, opensReference g = true →
      ¬g :: n.chars <:+ front valueText k b a) :
    n.valued ((markedWhere k [] w).filled valueText) =
      (markedWhere k [] w).filled valueText := by
  have hfilled := valued_filled hk n w (q := fun _ _ => false) fun b a hw hno => by
    refine iff_of_false Bool.false_ne_true ?_
    rintro ⟨hread, g, hg, hsuffix⟩
    exact h b a hw hno hread g hg hsuffix
  simpa using hfilled

/-- Where a name is caught only at places that are filled, it is not caught in the filled text. -/
theorem valued_of_taken (hk : BehindNames k)
    (h : ∀ b a, w = b ++ a → isCaught n.chars b a = true → k b a = true) :
    n.valued ((markedWhere k [] w).filled valueText) =
      (markedWhere k [] w).filled valueText := by
  refine valued_of_none hk fun b a hw hno hread g hg hsuffix => ?_
  obtain ⟨l, hb, -⟩ := unmarked_of_suffix_front hg hsuffix
  have hcaught := h b a hw (isCaught_iff_suffix.mpr ⟨⟨g, hg, _, hb.symm⟩, hread⟩)
  rw [hno] at hcaught
  cases hcaught

/-! ## Taking values again -/

/-- The value of a signal is taken once. -/
theorem valued_valued (n : WrittenName) (s : List Char) : n.valued (n.valued s) = n.valued s :=
  valued_of_taken (behindNames_isCaught n) fun _ _ _ hcaught => hcaught

/-- A name that is caught nowhere is not caught in what other names leave. -/
theorem valued_of_fixed (h : n.valued s = s) (m : WrittenName) :
    n.valued (m.valued s) = m.valued s := by
  refine valued_of_taken (behindNames_isCaught m) fun b a hplace hcaught => ?_
  rw [valued_eq_self_iff.mp h b a hplace.symm] at hcaught
  cases hcaught

theorem valued_valuedAll_of_fixed (h : n.valued s = s) (names : List WrittenName) :
    n.valued (valuedAll names s) = valuedAll names s := by
  induction names generalizing s with
  | nil => exact h
  | cons m names ih => exact ih (valued_of_fixed h m)

/-- None of the names is caught in what all of them leave. -/
theorem valued_valuedAll {names : List WrittenName} (hn : n ∈ names) (s : List Char) :
    n.valued (valuedAll names s) = valuedAll names s := by
  induction names generalizing s with
  | nil => exact absurd hn List.not_mem_nil
  | cons m names ih =>
    rcases List.mem_cons.mp hn with rfl | hn
    · exact valued_valuedAll_of_fixed (valued_valued n s) names
    · exact ih hn (m.valued s)

theorem valuedAll_of_fixed {names : List WrittenName} (h : ∀ n ∈ names, n.valued s = s) :
    valuedAll names s = s := by
  induction names with
  | nil => rfl
  | cons n names ih =>
    rw [valuedAll, List.foldl_cons, h n List.mem_cons_self]
    exact ih fun m hm => h m (List.mem_cons_of_mem _ hm)

/-! ## Names in names -/

/-- The name is spelled like a number between braces in the other one. -/
def SpelledIn (m n : WrittenName) : Prop := braced m.chars <:+: n.chars

instance : DecidableRel SpelledIn := fun m n =>
  inferInstanceAs (Decidable (braced m.chars <:+: n.chars))

theorem SpelledIn.length_lt (h : SpelledIn m n) : m.chars.length < n.chars.length := by
  have hlength := h.length_le
  rw [braced, List.length_append, List.length_cons, List.length_singleton] at hlength
  omega

/-- A name that is opened inside of another one, and followed there by what can follow a name, is
spelled like a number in it. -/
theorem spelledIn_of_opened {x : List Char} {g e : Char}
    (hname : n.chars = x ++ g :: (m.chars ++ e :: t)) (hg : opensReference g = true)
    (he : followsReference e = true ∨ isBlank e = true) : SpelledIn m n := by
  obtain ⟨rfl, digits, r, hv, hdigits⟩ := n.worded.of_opens hname hg
  have hclosed : e = '\x7d' → SpelledIn m n := by
    rintro rfl
    exact ⟨x, t, by rw [hname]; simp [braced]⟩
  -- the number can only end where the name ends
  rcases List.append_eq_append_iff.mp hv with ⟨z, rfl, hz⟩ | ⟨z, hm, hr⟩
  · obtain ⟨rfl, hclose⟩ | ⟨z, rfl, -⟩ := List.cons_eq_append_iff.mp hz
    · exact hclosed (List.cons.inj hclose).1.symm
    · have hordinary : IsOrdinary e := hdigits e (by simp)
      rw [hordinary.2, hordinary.not_blank] at he
      simp at he
  · obtain ⟨rfl, hclose⟩ | ⟨z, rfl, -⟩ := List.cons_eq_append_iff.mp hr
    · exact hclosed (List.cons.inj hclose).1
    · exact absurd ⟨z, by rw [hm]; simp⟩ (m.worded.not_close hdigits)

/-- **Inside of a name, a place of another one is caught only at a number.** The place ends behind
`s` and before the rest of the name. -/
theorem not_isCaught_inside (hspelled : ¬SpelledIn m n) {g : Char}
    (hg : opensReference g = true) (hname : g :: n.chars = s ++ t) (hs : s ≠ []) (ht : t ≠ []) :
    isCaught m.chars (before ++ s) (t ++ after) = false := by
  refine Bool.eq_false_iff.mpr fun hcaught => ?_
  obtain ⟨⟨g', hg', hsuffix⟩, hread⟩ := isCaught_iff_suffix.mp hcaught
  obtain ⟨rfl, -⟩ | ⟨u, rfl, hn⟩ := List.cons_eq_append_iff.mp hname
  · exact hs rfl
  obtain ⟨e, t, rfl⟩ := List.exists_cons_of_ne_nil ht
  have he := follows_or_blank_of_isRead hread
  -- the name that is caught is not all of `u`, nor longer
  have hwhole : m.chars ≠ u := by
    rintro rfl
    have hno := m.worded.of_append (hn ▸ n.worded)
    rw [hno.1, hno.2] at he
    simp at he
  have hlonger : ¬g :: u <:+ m.chars := by
    rintro ⟨x, hx⟩
    obtain ⟨-, digits, r, rfl, hdigits⟩ := m.worded.of_opens hx.symm hg
    exact n.worded.not_close hdigits ⟨r ++ e :: t, by rw [hn]; simp⟩
  have hinside : g' :: m.chars <:+ u := by
    rcases List.suffix_or_suffix_of_suffix hsuffix (List.suffix_append before (g :: u)) with h | h
    · rcases List.suffix_cons_iff.mp h with h | h
      · exact absurd (List.cons.inj h).2 hwhole
      · exact h
    · rcases List.suffix_cons_iff.mp h with h | h
      · exact absurd (List.cons.inj h).2.symm hwhole
      · exact absurd h hlonger
  obtain ⟨x, rfl⟩ := hinside
  have hn' : n.chars = x ++ g' :: (m.chars ++ e :: t) := by rw [hn]; simp
  exact hspelled (spelledIn_of_opened hn' hg' he)

/-! ## All names at once -/

/-- One of the names is caught at this place. -/
def isCaughtAny (names : List WrittenName) (before after : List Char) : Bool :=
  names.any fun n => isCaught n.chars before after

theorem behindNames_isCaughtAny (names : List WrittenName) : BehindNames (isCaughtAny names) := by
  intro b a hcaught
  obtain ⟨n, -, hn⟩ := List.any_eq_true.mp hcaught
  exact behindNames_isCaught n b a hn

/-- A name is whole in a filled text if none of the others is spelled like a number in it. -/
theorem suffix_front {names : List WrittenName} (hspelled : ∀ m ∈ names, ¬SpelledIn m n)
    (hno : isCaughtAny names before after = false) {g : Char} (hg : opensReference g = true)
    (h : g :: n.chars <:+ before) :
    g :: n.chars <:+ front valueText (isCaughtAny names) before after := by
  obtain ⟨x, rfl⟩ := h
  have hinside : markedWhere (fun b a => isCaughtAny names b (a ++ after)) x (g :: n.chars) =
      unmarked (g :: n.chars) := by
    refine markedWhere_eq_unmarked fun t₁ t₂ ht hnil => ?_
    by_cases hend : t₂ = []
    · rw [hend, List.append_nil] at ht
      rwa [← ht, hend, List.nil_append]
    · refine List.any_eq_false.mpr fun m hm => Bool.not_eq_true _ ▸ ?_
      exact not_isCaught_inside (hspelled m hm) hg ht hnil hend
  rw [front, markedWhere_split, filled_append, List.nil_append, hinside, filled_unmarked]
  exact List.suffix_append _ _

/-- The values of a name in which no other one is spelled are taken beside those of the others. -/
theorem valued_filled_any {names : List WrittenName} (hspelled : ∀ m ∈ names, ¬SpelledIn m n)
    (s : List Char) :
    n.valued ((markedWhere (isCaughtAny names) [] s).filled valueText) =
      (markedWhere (fun b a => isCaughtAny names b a || isCaught n.chars b a) [] s).filled
        valueText := by
  refine valued_filled (behindNames_isCaughtAny names) n s fun b a _ hno => ?_
  rw [isCaught_iff_suffix, and_comm]
  refine and_congr_right fun _ => exists_congr fun g => and_congr_right fun hg => ?_
  constructor
  · exact suffix_front hspelled hno hg
  · intro hsuffix
    obtain ⟨l, hb, -⟩ := unmarked_of_suffix_front hg hsuffix
    exact ⟨plain l, hb.symm⟩

/-- **Names that are not spelled in each other are taken all at once.** -/
theorem valuedAll_eq {names : List WrittenName}
    (hspelled : ∀ m ∈ names, ∀ n ∈ names, ¬SpelledIn m n) (s : List Char) :
    valuedAll names s = (markedWhere (isCaughtAny names) [] s).filled valueText := by
  induction names using List.reverseRecOn with
  | nil =>
    have hnone : markedWhere (isCaughtAny []) [] s = unmarked s :=
      markedWhere_eq_unmarked fun _ _ _ _ => rfl
    rw [hnone, filled_unmarked]
    rfl
  | append_singleton names n ih =>
    have hbefore := ih fun m hm n' hn' =>
      hspelled m (List.mem_append_left _ hm) n' (List.mem_append_left _ hn')
    have hboth : isCaughtAny (names ++ [n]) =
        fun b a => isCaughtAny names b a || isCaught n.chars b a := by
      funext b a
      simp [isCaughtAny]
    rw [valuedAll, List.foldl_append, List.foldl_cons, List.foldl_nil, ← valuedAll, hbefore, hboth]
    refine valued_filled_any (fun m hm => ?_) s
    exact hspelled m (List.mem_append_left _ hm) n (List.mem_append_right _ List.mem_cons_self)

/-! ## A name in another one -/

/-- A name does not end behind what opens another one in it. -/
theorem WrittenName.not_suffix_of_opens (m n : WrittenName) {g : Char}
    (hg : opensReference g = true) : ¬g :: m.chars <:+ n.chars := by
  rintro ⟨x, hx⟩
  obtain ⟨-, digits, r, hm, hdigits⟩ := n.worded.of_opens hx.symm hg
  exact m.worded.not_close hdigits ⟨r, by rw [hm]; simp⟩

/-- Between braces, a name is caught at its end, and no shorter one is. -/
theorem isCaught_braced : isCaught n.chars ('\x7b' :: n.chars) ['\x7d'] = true ∧
    (m.chars.length < n.chars.length →
      isCaught m.chars ('\x7b' :: n.chars) ['\x7d'] = false) := by
  constructor
  · exact isCaught_iff_suffix.mpr ⟨⟨'\x7b', by decide, List.suffix_refl _⟩, by decide⟩
  · intro hlength
    refine Bool.eq_false_iff.mpr fun hcaught => ?_
    obtain ⟨⟨g, hg, hsuffix⟩, -⟩ := isCaught_iff_suffix.mp hcaught
    rcases List.suffix_cons_iff.mp hsuffix with hwhole | hin
    · rw [(List.cons.inj hwhole).2] at hlength
      exact absurd hlength (Nat.lt_irrefl _)
    · exact m.not_suffix_of_opens n hg hin

/-- A name with the value of another one inside of it is not caught between braces. -/
theorem valued_of_spelledIn (h : SpelledIn m n) :
    n.valued (m.valued (braced n.chars)) = m.valued (braced n.chars) := by
  obtain ⟨x, y, hname⟩ := h
  refine valued_of_none (behindNames_isCaught m) fun b a hw _ hread g hg hsuffix => ?_
  obtain ⟨l, hb, hl⟩ := unmarked_of_suffix_front hg hsuffix
  -- there is room for the name only between the braces
  obtain ⟨e, a, rfl⟩ : ∃ e a', a = e :: a' := by
    refine List.exists_cons_of_ne_nil ?_
    rintro rfl
    exact absurd hread (Bool.eq_false_iff.mp isRead_nil)
  have hlength := congrArg List.length (hb ▸ hw)
  simp only [braced, List.length_append, List.length_cons, List.length_nil] at hlength
  obtain rfl : a = [] := List.length_eq_zero_iff.mp (by omega)
  have hempty : (plain l).length = 0 := by omega
  obtain rfl : l = [] := List.map_eq_nil_iff.mp (List.length_eq_zero_iff.mp hempty)
  obtain ⟨hb', he⟩ := List.append_inj' hw rfl
  -- and there it has a mark
  have hat : (unmarked (g :: n.chars)).At ('\x7b' :: x ++ '\x7b' :: m.chars) ('\x7d' :: y) := by
    rw [List.nil_append] at hl
    rw [← hl]
    refine at_markedWhere.mpr ⟨by simp, ?_, ?_⟩
    · rw [← hb', ← hname]
      simp [braced]
    · refine isCaught_iff_suffix.mpr ⟨⟨'\x7b', by decide, '\x7b' :: x, rfl⟩, ?_⟩
      rw [List.cons_append, isRead_cons (by decide) (by decide)]
      rfl
  exact not_at_unmarked hat

/-- **A name in another one makes the order matter.** -/
theorem valued_ne_of_spelledIn (h : SpelledIn m n) :
    m.valued (n.valued (braced n.chars)) ≠ n.valued (m.valued (braced n.chars)) := by
  have hlength := h.length_lt
  have hany : isCaughtAny [n] = isCaught n.chars := by
    funext b a
    simp [isCaughtAny]
  have hno : ∀ n' ∈ [n], ¬SpelledIn n' m := by
    intro n' hn' hspelled
    obtain rfl := List.mem_singleton.mp hn'
    exact absurd hspelled.length_lt (Nat.lt_asymm hlength)
  have hboth := valued_filled_any hno (braced n.chars)
  rw [hany] at hboth
  intro heq
  rw [valued_of_spelledIn h, WrittenName.valued.eq_def n, hboth, WrittenName.valued] at heq
  have hor : (fun b a => isCaught n.chars b a || isCaught m.chars b a) =
      fun b a => isCaught m.chars b a || isCaught n.chars b a := by
    funext b a
    exact Bool.or_comm _ _
  rw [hor] at heq
  obtain ⟨hcaught, hnot⟩ := isCaught_braced (m := m) (n := n)
  have hsame := of_filled_or_eq (List.cons_ne_nil _ _) heq ('\x7b' :: n.chars) ['\x7d'] rfl
    (List.cons_ne_nil _ _) hcaught
  rw [List.nil_append, hnot hlength] at hsame
  cases hsame

/-! ## Lists of names -/

/-- The lists have the same names, in whatever order and however often. -/
def SameNames (names names' : List WrittenName) : Prop :=
  ∀ t, t ∈ names.map WrittenName.text ↔ t ∈ names'.map WrittenName.text

variable {names names' : List WrittenName}

theorem SameNames.isCaughtAny_eq (h : SameNames names names') :
    isCaughtAny names = isCaughtAny names' := by
  have hsub : ∀ {l l' : List WrittenName}, SameNames l l' → ∀ {b a}, isCaughtAny l b a = true →
      isCaughtAny l' b a = true := by
    intro l l' hsame b a hany
    obtain ⟨n, hn, hcaught⟩ := List.any_eq_true.mp hany
    obtain ⟨n', hn', htext⟩ := List.mem_map.mp ((hsame n.text).mp (List.mem_map_of_mem hn))
    have hchars : n'.chars = n.chars := String.ofList_injective htext
    exact List.any_eq_true.mpr ⟨n', hn', hchars ▸ hcaught⟩
  funext b a
  exact Bool.eq_iff_iff.mpr ⟨hsub h, hsub fun t => (h t).symm⟩

theorem isCaughtAny_iff : isCaughtAny names before after = true ↔
    ∃ n ∈ names, ∃ x, before = x ++ n.chars ∧ Caught x after := by
  rw [isCaughtAny, List.any_eq_true]
  exact exists_congr fun n => and_congr_right fun _ => isCaught_iff

/-- Nothing is spelled in a name without numbers. -/
theorem not_spelledIn_written (m : WrittenName) (n : Identifier) : ¬SpelledIn m n.written := by
  intro h
  have hbrace : '\x7b' ∈ n.written.chars := h.subset List.mem_cons_self
  rw [n.chars_written] at hbrace
  exact absurd (n.char_of_mem hbrace) (by decide)

/-- **Signals in any order.** What `signalReferences` leaves for a list of names it leaves as it is,
and none of the names is caught there. The lists that are made of these names give the same text if
they have the same ones, whatever the order and the repetitions, exactly if none of the names is
spelled like a number in another. Then `.value` is put behind all places at which one of the names
is caught in the text itself. None is spelled in another if no name has a number. -/
theorem signalReferences_stable (names : List WrittenName) :
    (∀ jsx : String,
      signalReferences (signalReferences jsx (names.map WrittenName.text))
          (names.map WrittenName.text) = signalReferences jsx (names.map WrittenName.text) ∧
        ∀ n ∈ names, ∀ before after,
          (signalReferences jsx (names.map WrittenName.text)).toList =
            before ++ n.chars ++ after → ¬Caught before after) ∧
    ((∀ l ⊆ names, ∀ l' ⊆ names, SameNames l l' → ∀ jsx : String,
        signalReferences jsx (l.map WrittenName.text) =
          signalReferences jsx (l'.map WrittenName.text)) ↔
      ∀ m ∈ names, ∀ n ∈ names, ¬SpelledIn m n) ∧
    ((∀ m ∈ names, ∀ n ∈ names, ¬SpelledIn m n) → ∀ jsx : String,
      ∃ marks : Marked, marks.plain = jsx.toList ∧
        marks.filled valueText =
          (signalReferences jsx (names.map WrittenName.text)).toList ∧
        ∀ b a, marks.At b a ↔ b ++ a = jsx.toList ∧
          ∃ n ∈ names, ∃ before, b = before ++ n.chars ∧ Caught before a) ∧
    ((∀ n ∈ names, ∃ plainName : Identifier, n = plainName.written) →
      ∀ m ∈ names, ∀ n ∈ names, ¬SpelledIn m n) := by
  refine ⟨fun jsx => ⟨?_, fun n hn before after hplace hcaught => ?_⟩,
    ⟨fun hsame m hm n hn hspelled => ?_, fun hspelled l hsub l' hsub' hsame jsx => ?_⟩,
    fun hspelled jsx => ?_, fun hplain m _ n hn => ?_⟩
  · rw [← String.toList_inj, toList_signalReferences_written, toList_signalReferences_written]
    exact valuedAll_of_fixed fun n hn => valued_valuedAll hn jsx.toList
  · rw [toList_signalReferences_written] at hplace
    have hnone := valued_eq_self_iff.mp (valued_valuedAll hn jsx.toList) _ _ hplace.symm
    rw [isCaught_append.mpr hcaught] at hnone
    cases hnone
  · have hboth := hsame [n, m] (by simp [hm, hn]) [m, n] (by simp [hm, hn])
      (fun t => by simp [or_comm]) (String.ofList (braced n.chars))
    rw [← String.toList_inj, toList_signalReferences_written, toList_signalReferences_written,
      String.toList_ofList] at hboth
    exact valued_ne_of_spelledIn hspelled hboth
  · rw [← String.toList_inj, toList_signalReferences_written, toList_signalReferences_written,
      valuedAll_eq fun m hm n hn => hspelled m (hsub hm) n (hsub hn),
      valuedAll_eq fun m hm n hn => hspelled m (hsub' hm) n (hsub' hn), hsame.isCaughtAny_eq]
  · refine ⟨markedWhere (isCaughtAny names) [] jsx.toList, plain_markedWhere, ?_, fun b a => ?_⟩
    · rw [toList_signalReferences_written, valuedAll_eq hspelled]
    · rw [at_markedWhere, List.nil_append, isCaughtAny_iff]
      refine ⟨And.right, fun h => ⟨?_, h⟩⟩
      obtain ⟨-, n, -, before, rfl, -⟩ := h
      simp [n.chars_ne_nil]
  · obtain ⟨plainName, rfl⟩ := hplain n hn
    exact not_spelledIn_written m plainName

/-! ### Names that start alike, and a name in another one -/

/-- The name of one character, by its number. -/
def numberName : WrittenName where
  parts := [.braced ['a', 'a'] (by decide)]
  start := by decide

/-- The name of the digits of that number. -/
def digitsName : WrittenName where
  parts := [.char 'a' (by decide), .char 'a' (by decide)]
  start := by decide

/-- Names that start alike, the name of the field that is put in, and a name with a number. -/
def itemNames : List WrittenName :=
  [Identifier.written ⟨"item".toList, by decide, by decide⟩,
    Identifier.written ⟨"items".toList, by decide, by decide⟩, valueField.written, numberName]

theorem signalReferences_stable_itemNames :
    (∀ m ∈ itemNames, ∀ n ∈ itemNames, ¬SpelledIn m n) ∧
      itemNames.map WrittenName.text = ["item", "items", "value", "\\u\x7baa\x7d"] ∧
      signalReferences "\x7bvalue && item || items.value : \\u\x7baa\x7d\x7d"
          (itemNames.map WrittenName.text) =
        "\x7bvalue.value && item.value || items.value : \\u\x7baa\x7d.value\x7d" ∧
      signalReferences "\x7bvalue && item || items.value : \\u\x7baa\x7d\x7d"
          (itemNames.reverse.map WrittenName.text) =
        "\x7bvalue.value && item.value || items.value : \\u\x7baa\x7d.value\x7d" := by
  have hspelled : ∀ m ∈ itemNames, ∀ n ∈ itemNames, ¬SpelledIn m n := by decide +kernel
  have hsame := (signalReferences_stable itemNames).2.1.mpr hspelled itemNames.reverse
    (List.reverse_subset.mpr (List.Subset.refl _)) itemNames (List.Subset.refl _)
    (fun t => by rw [List.map_reverse, List.mem_reverse])
    "\x7bvalue && item || items.value : \\u\x7baa\x7d\x7d"
  have hfirst : signalReferences "\x7bvalue && item || items.value : \\u\x7baa\x7d\x7d"
      (itemNames.map WrittenName.text) =
        "\x7bvalue.value && item.value || items.value : \\u\x7baa\x7d.value\x7d" := by
    decide +kernel
  exact ⟨hspelled, by decide +kernel, hfirst, hsame.trans hfirst⟩

/-- The digits of a number are taken for a signal of this name. Where its value is taken first, the
name with the number is in the text no more. -/
theorem not_stable_number : digitsName.text = "aa" ∧ numberName.text = "\\u\x7baa\x7d" ∧
    SameNames [numberName, digitsName] [digitsName, numberName] ∧
    signalReferences "\x7b\\u\x7baa\x7d\x7d" [numberName.text, digitsName.text] =
      "\x7b\\u\x7baa.value\x7d.value\x7d" ∧
    signalReferences "\x7b\\u\x7baa\x7d\x7d" [digitsName.text, numberName.text] =
      "\x7b\\u\x7baa.value\x7d\x7d" := by
  refine ⟨by decide, by decide, fun t => ?_, by decide +kernel, by decide +kernel⟩
  simp [or_comm]

end Trellis.Output
