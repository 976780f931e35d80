import Mathlib.Data.List.TakeWhile
import Trellis.Proofs.Text.Runs
import Trellis.Proofs.Text.Substitution
import Trellis.Text.Letter

/-!
# Names that members are asked of

A path is a run of names and dots. The name at its start, with `this` before it or not, is mentioned
if a member of it is asked for.

* `mention?` reads the mention at the start of a path, and `Mentions` says which ones a text has.
  `mention_induction` goes through a text from mention to mention.
* `renamed` puts other mentions in the place of all mentions of a text at once. One renaming after
  the other is one renaming (`renamed_renamed`), and renamings are told apart by the mentions of the
  text (`renamed_eq_iff`).
* `infix_of_infix_renamed`: no renaming puts `this` behind a dollar sign or a dot.
-/

namespace Trellis.Output

open Trellis.Text

/-! ## Mentions -/

/-- A character of a name. -/
def isSegmentChar (c : Char) : Bool := isWordChar c || c == '$'

/-- A character of a path. -/
def isPathChar (c : Char) : Bool := isWordChar c || c == '$' || c == '.'

/-- A place behind this character is inside of a path. -/
def isInside (prev : Option Char) : Bool := (prev.map isPathChar).getD false

/-- A name of which a member is asked for, with `this` before it or not. -/
structure Mention where
  own : Bool
  name : List Char
  deriving DecidableEq

namespace Mention

/-- The text of a mention, up to the dot behind it. -/
def text (m : Mention) : List Char := if m.own then "this.".toList ++ m.name else m.name

/-- The name is made of characters of names, and is not `this` itself. -/
def Valid (m : Mention) : Prop :=
  (∀ c ∈ m.name, isSegmentChar c = true) ∧ (m.own = false → m.name ≠ "this".toList)

end Mention

/-- The mention at the start of a path. -/
def mention? (cs : List Char) : Option Mention :=
  match cs.dropWhile isSegmentChar with
  | '.' :: rest =>
    if cs.takeWhile isSegmentChar = "this".toList then
      if (rest.dropWhile isSegmentChar).head? = some '.' then
        some ⟨true, rest.takeWhile isSegmentChar⟩
      else none
    else some ⟨false, cs.takeWhile isSegmentChar⟩
  | _ => none

variable {prev : Option Char} {c : Char} {m : Mention} {s t : List Char}

theorem isPathChar_eq (c : Char) : isPathChar c = (isSegmentChar c || c == '.') := rfl

theorem isPathChar_of_mem_text (hm : m.Valid) (hc : c ∈ m.text ++ ['.']) : isPathChar c = true := by
  rw [isPathChar_eq]
  rw [Mention.text, List.mem_append, List.mem_singleton] at hc
  rcases hc with hc | rfl
  · split at hc
    · have hthis : ∀ c ∈ "this.".toList, (isSegmentChar c || c == '.') = true :=
        List.all_eq_true.mp (by decide)
      rcases List.mem_append.mp hc with hc | hc
      · exact hthis c hc
      · simp [hm.1 c hc]
    · simp [hm.1 c hc]
  · simp

/-- A name up to a dot. -/
theorem cut_name {name : List Char} (h : ∀ c ∈ name, isSegmentChar c = true) (s : List Char) :
    (name ++ '.' :: s).takeWhile isSegmentChar = name ∧
      (name ++ '.' :: s).dropWhile isSegmentChar = '.' :: s := by
  have hdot : ∀ c ∈ ('.' :: s).head?, isSegmentChar c = false := by simp; decide
  exact ⟨takeWhile_run h hdot, dropWhile_run h hdot⟩

theorem exists_cut {rest : List Char} (h : s.dropWhile isSegmentChar = '.' :: rest) :
    (∀ c ∈ s.takeWhile isSegmentChar, isSegmentChar c = true) ∧
      s = s.takeWhile isSegmentChar ++ '.' :: rest :=
  ⟨fun _ hc => List.mem_takeWhile_imp hc, by rw [← h, List.takeWhile_append_dropWhile]⟩

/-- The mention at the start is the one with whose text and a dot the path starts. -/
theorem mention?_eq_some : mention? s = some m ↔ m.Valid ∧ m.text ++ ['.'] <+: s := by
  have hthis : ∀ c ∈ "this".toList, isSegmentChar c = true := List.all_eq_true.mp (by decide)
  unfold mention?
  constructor
  · intro h
    split at h
    · next rest hrest =>
      obtain ⟨hname, hs⟩ := exists_cut hrest
      split at h
      · next howned =>
        split at h
        · next hdot =>
          obtain ⟨rest', hrest'⟩ := List.head?_eq_some_iff.mp hdot
          obtain ⟨hmember, hrest⟩ := exists_cut hrest'
          obtain rfl := Option.some.inj h
          refine ⟨⟨hmember, nofun⟩, rest', ?_⟩
          rw [hs, howned, hrest]
          simp [Mention.text, ← hrest]
        · cases h
      · next hbare =>
        obtain rfl := Option.some.inj h
        refine ⟨⟨hname, fun _ => hbare⟩, rest, ?_⟩
        rw [List.append_assoc, List.singleton_append]
        exact hs.symm
    · cases h
  · rintro ⟨⟨hname, hbare⟩, rest, rfl⟩
    obtain ⟨own, name⟩ := m
    cases own with
    | false =>
      have hcut := cut_name hname rest
      simp only [Mention.text, Bool.false_eq_true, if_false, List.append_assoc,
        List.singleton_append, hcut.1, hcut.2, if_neg (hbare rfl)]
    | true =>
      have hfirst := cut_name hthis (name ++ '.' :: rest)
      have hsecond := cut_name hname rest
      have htext : Mention.text ⟨true, name⟩ ++ ['.'] ++ rest =
          "this".toList ++ '.' :: (name ++ '.' :: rest) := by simp [Mention.text]
      rw [htext]
      simp only [hfirst.1, hfirst.2, if_true, hsecond.1, hsecond.2, List.head?_cons]

/-- A name is mentioned in a text: its path starts there, and a member is asked for. -/
def Mentions (prev : Option Char) (s : List Char) (m : Mention) : Prop :=
  m.Valid ∧ ∃ before after, s = before ++ (m.text ++ '.' :: after) ∧
    isInside (before.getLast?.or prev) = false

/-! ## From mention to mention -/

theorem mention?_text (hm : m.Valid) (s : List Char) : mention? (m.text ++ '.' :: s) = some m :=
  mention?_eq_some.mpr ⟨hm, s, by simp⟩

/-- To show something of all texts, one goes from mention to mention and passes what is between. -/
theorem mention_induction {P : Option Char → List Char → Prop} (hnil : ∀ prev, P prev [])
    (hmention : ∀ prev (m : Mention) s, isInside prev = false → m.Valid → P (some '.') s →
      P prev (m.text ++ '.' :: s))
    (hpass : ∀ prev c s, isInside prev = true ∨ mention? (c :: s) = none → P (some c) s →
      P prev (c :: s)) (prev : Option Char) (s : List Char) : P prev s := by
  induction hlength : s.length using Nat.strong_induction_on generalizing prev s with
  | _ n ih =>
    subst hlength
    cases s with
    | nil => exact hnil prev
    | cons c s =>
      have hs : P (some c) s := ih _ (Nat.lt_succ_self s.length) (some c) s rfl
      by_cases hinside : isInside prev = true
      · exact hpass prev c s (.inl hinside) hs
      · cases hm : mention? (c :: s) with
        | none => exact hpass prev c s (.inr hm) hs
        | some m =>
          obtain ⟨hvalid, rest, hrest⟩ := mention?_eq_some.mp hm
          rw [List.append_assoc, List.singleton_append] at hrest
          have hshort : rest.length < (c :: s).length := by
            rw [← hrest, List.length_append, List.length_cons]
            omega
          rw [← hrest]
          exact hmention prev m rest (by simpa using hinside) hvalid (ih _ hshort _ rest rfl)

/-- The text of a mention with the dot, by its first character. -/
theorem exists_text (m : Mention) : ∃ c t, t.getLast?.or (some c) = some '.' ∧
    ∀ s, m.text ++ '.' :: s = c :: (t ++ s) := by
  cases htext : m.text with
  | nil => exact ⟨'.', [], rfl, fun s => rfl⟩
  | cons c t => exact ⟨c, t ++ ['.'], by simp, fun s => by simp⟩

theorem mentions_nil : ¬Mentions prev [] m := by
  rintro ⟨-, before, after, h, -⟩
  simp at h

theorem mentions_cons : Mentions prev (c :: s) m ↔
    (isInside prev = false ∧ mention? (c :: s) = some m) ∨ Mentions (some c) s m := by
  have hlast (t : List Char) : (c :: t).getLast?.or prev = t.getLast?.or (some c) := by
    rw [List.getLast?_cons]
    cases t.getLast? <;> rfl
  constructor
  · rintro ⟨hvalid, before, after, hs, hinside⟩
    cases before with
    | nil => exact .inl ⟨hinside, hs ▸ mention?_text hvalid after⟩
    | cons d before =>
      obtain ⟨rfl, rfl⟩ := List.cons.inj hs
      rw [hlast] at hinside
      exact .inr ⟨hvalid, before, after, rfl, hinside⟩
  · rintro (⟨hinside, hm⟩ | ⟨hvalid, before, after, rfl, hinside⟩)
    · obtain ⟨hvalid, after, hs⟩ := mention?_eq_some.mp hm
      exact ⟨hvalid, [], after, by rw [← hs]; simp, hinside⟩
    · exact ⟨hvalid, c :: before, after, rfl, (hlast before).symm ▸ hinside⟩

/-- Inside of a path nothing is mentioned. -/
theorem mentions_inside (hprev : isInside prev = true) (ht : ∀ c ∈ t, isPathChar c = true) :
    Mentions prev (t ++ s) m ↔ Mentions (t.getLast?.or prev) s m := by
  induction t generalizing prev with
  | nil => rfl
  | cons c t ih =>
    rw [List.forall_mem_cons] at ht
    have hinside : isInside (some c) = true := ht.1
    rw [List.cons_append, mentions_cons, hprev, ih hinside ht.2, List.getLast?_cons]
    cases t.getLast? <;> simp

theorem mentions_mention {m' : Mention} (hprev : isInside prev = false) (hm : m.Valid) :
    Mentions prev (m.text ++ '.' :: s) m' ↔ m' = m ∨ Mentions (some '.') s m' := by
  have hread := mention?_text hm s
  obtain ⟨c, t, hlast, htext⟩ := exists_text m
  have hpath : ∀ d ∈ c :: t, isPathChar d = true := by
    intro d hd
    refine isPathChar_of_mem_text hm ?_
    rw [htext, List.append_nil]
    exact hd
  rw [List.forall_mem_cons] at hpath
  have hinside : isInside (some c) = true := hpath.1
  rw [htext] at hread ⊢
  rw [mentions_cons, hread, mentions_inside hinside hpath.2, hlast]
  simp [hprev, eq_comm]

theorem mentions_pass (h : isInside prev = true ∨ mention? (c :: s) = none) :
    Mentions prev (c :: s) m ↔ Mentions (some c) s m := by
  rw [mentions_cons]
  rcases h with h | h <;> simp [h]

/-! ## Renaming -/

/-- The rule that puts other mentions in the place of all. -/
def mentionRule (f : Mention → Mention) : Rule := fun prev cs =>
  if isInside prev then none
  else (mention? cs).map fun m => (m.text.length + 1, (f m).text ++ ['.'])

/-- The text with other mentions in the place of all, behind a character. -/
def renamed (f : Mention → Mention) (prev : Option Char) (s : List Char) : List Char :=
  substituteFrom (mentionRule f) prev 0 s

variable {f g : Mention → Mention}

@[simp]
theorem renamed_nil : renamed f prev [] = [] := rfl

theorem renamed_mention (hprev : isInside prev = false) (hm : m.Valid) (s : List Char) :
    renamed f prev (m.text ++ '.' :: s) = (f m).text ++ '.' :: renamed f (some '.') s := by
  have hread := mention?_text hm s
  obtain ⟨c, t, hlast, htext⟩ := exists_text m
  have hlength : m.text.length = t.length := by
    have h := congrArg List.length (htext [])
    simpa using h
  rw [htext] at hread ⊢
  have hrule : mentionRule f prev (c :: (t ++ s)) = some (t.length + 1, (f m).text ++ ['.']) := by
    rw [mentionRule, hprev, if_neg Bool.false_ne_true, hread, ← hlength]
    rfl
  rw [renamed, substituteFrom_match hrule, hlast, List.append_assoc]
  rfl

theorem renamed_pass (h : isInside prev = true ∨ mention? (c :: s) = none) :
    renamed f prev (c :: s) = c :: renamed f (some c) s := by
  refine substituteFrom_pass ?_
  rw [mentionRule]
  rcases h with h | h <;> simp [h]

/-- Inside of a path nothing changes. -/
theorem prefix_renamed (hprev : isInside prev = true) {w : List Char}
    (hw : ∀ c ∈ w, isPathChar c = true) : w <+: renamed f prev s ↔ w <+: s := by
  induction w generalizing prev s with
  | nil => simp
  | cons c w ih =>
    rw [List.forall_mem_cons] at hw
    cases s with
    | nil => rfl
    | cons d s =>
      rw [renamed_pass (.inl hprev), List.cons_prefix_cons, List.cons_prefix_cons]
      refine and_congr_right ?_
      rintro rfl
      exact ih hw.1 hw.2

theorem mention?_renamed (h : mention? (c :: s) = none) :
    mention? (c :: renamed f (some c) s) = none := by
  rw [Option.eq_none_iff_forall_ne_some] at h ⊢
  intro m hm
  obtain ⟨hvalid, hfront⟩ := mention?_eq_some.mp hm
  refine h m (mention?_eq_some.mpr ⟨hvalid, ?_⟩)
  obtain ⟨d, t, -, htext⟩ := exists_text m
  have hpath := fun e (he : e ∈ m.text ++ ['.']) => isPathChar_of_mem_text hvalid he
  rw [htext, List.append_nil] at hfront hpath ⊢
  rw [List.forall_mem_cons] at hpath
  have hinside : isInside (some d) = true := hpath.1
  rw [List.cons_prefix_cons] at hfront ⊢
  obtain ⟨rfl, hfront⟩ := hfront
  exact ⟨rfl, (prefix_renamed hinside hpath.2).mp hfront⟩

/-- **One renaming after the other is one renaming.** -/
theorem renamed_renamed (hf : ∀ m, m.Valid → (f m).Valid) (prev : Option Char) (s : List Char) :
    renamed g prev (renamed f prev s) = renamed (g ∘ f) prev s := by
  induction prev, s using mention_induction with
  | hnil prev => rfl
  | hmention prev m s hprev hm ih =>
    rw [renamed_mention hprev hm, renamed_mention hprev (hf m hm), renamed_mention hprev hm, ih]
    rfl
  | hpass prev c s h ih =>
    rw [renamed_pass h, renamed_pass (h.imp_right mention?_renamed), renamed_pass h, ih]

/-- **Renamings are told apart by the mentions of the text.** -/
theorem renamed_eq_iff (hf : ∀ m, m.Valid → (f m).Valid) (hg : ∀ m, m.Valid → (g m).Valid)
    (prev : Option Char) (s : List Char) :
    renamed f prev s = renamed g prev s ↔ ∀ m, Mentions prev s m → f m = g m := by
  induction prev, s using mention_induction with
  | hnil prev => exact iff_of_true rfl fun m h => absurd h mentions_nil
  | hmention prev m s hprev hm ih =>
    rw [renamed_mention hprev hm, renamed_mention hprev hm]
    simp only [mentions_mention hprev hm, forall_eq_or_imp, ← ih]
    constructor
    · intro h
      have hfm := mention?_text (hf m hm) (renamed f (some '.') s)
      rw [h, mention?_text (hg m hm)] at hfm
      have hsame : f m = g m := (Option.some.inj hfm).symm
      rw [hsame] at h
      exact ⟨hsame, (List.cons.inj (List.append_cancel_left h)).2⟩
    · rintro ⟨hm, hs⟩
      rw [hm, hs]
  | hpass prev c s h ih =>
    simp only [renamed_pass h, mentions_pass h, List.cons.injEq, true_and, ih]

theorem renamed_id (prev : Option Char) (s : List Char) : renamed id prev s = s := by
  induction prev, s using mention_induction with
  | hnil prev => rfl
  | hmention prev m s hprev hm ih => rw [renamed_mention hprev hm, ih, id]
  | hpass prev c s h ih => rw [renamed_pass h, ih]

/-! ## Where `this` starts a path -/

/-- Wherever a member of `this` is asked for, `this` is no member and no end of a longer name. -/
def ThisLeads (s : List Char) : Prop :=
  ¬"$this.".toList <:+: s ∧ ¬".this.".toList <:+: s

instance (s : List Char) : Decidable (ThisLeads s) :=
  inferInstanceAs (Decidable (¬"$this.".toList <:+: s ∧ ¬".this.".toList <:+: s))

/-- Every mention is left, or a name without `this` and without dollar signs takes its place. -/
def Plain (f : Mention → Mention) : Prop :=
  ∀ m, f m = m ∨ ((f m).own = false ∧ ∀ c ∈ (f m).name, isWordChar c = true)

section

variable {d : Char} {w : List Char}

/-- What starts with a character stands behind a text without it. -/
theorem infix_of_not_mem (hd : d ∉ t) (h : d :: w <:+: t ++ s) : d :: w <:+: s := by
  induction t with
  | nil => exact h
  | cons b t ih =>
    rw [List.mem_cons, not_or] at hd
    rcases List.infix_cons_iff.mp h with h | h
    · exact absurd (List.cons_prefix_cons.mp h).1 hd.1
    · exact ih hd.2 h

variable (hw : ∀ c ∈ d :: w, isPathChar c = true)

include hw

/-- Up to the next mention only the text behind it changes. -/
theorem infix_of_infix_append (t : List Char)
    (hdot : d :: w <:+: '.' :: renamed f (some '.') s → d :: w <:+: '.' :: s)
    (h : d :: w <:+: t ++ '.' :: renamed f (some '.') s) : d :: w <:+: t ++ '.' :: s := by
  have hfront (v : List Char) (hv : ∀ c ∈ v, isPathChar c = true) (t : List Char) :
      v <+: t ++ '.' :: renamed f (some '.') s → v <+: t ++ '.' :: s := by
    induction t generalizing v with
    | nil =>
      cases v with
      | nil => exact fun _ => List.nil_prefix
      | cons c v =>
        rw [List.nil_append, List.nil_append, List.cons_prefix_cons, List.cons_prefix_cons,
          prefix_renamed rfl (List.forall_mem_cons.mp hv).2]
        exact id
    | cons b t ih =>
      cases v with
      | nil => exact fun _ => List.nil_prefix
      | cons c v =>
        rw [List.cons_append, List.cons_append, List.cons_prefix_cons, List.cons_prefix_cons]
        exact And.imp_right (ih v (List.forall_mem_cons.mp hv).2)
  induction t with
  | nil => exact hdot h
  | cons b t ih =>
    rcases List.infix_cons_iff.mp h with h | h
    · exact (hfront (d :: w) hw (b :: t) h).isInfix
    · exact List.infix_cons_iff.mpr (.inr (ih h))

/-- No renaming makes a part of a path that starts with no character of a word. -/
theorem infix_of_infix_renamed (hd : isWordChar d = false) (hf : Plain f) (prev : Option Char)
    (s : List Char) (h : d :: w <:+: prev.toList ++ renamed f prev s) :
    d :: w <:+: prev.toList ++ s := by
  induction prev, s using mention_induction with
  | hnil prev => exact h
  | hmention prev m s hprev hm ih =>
    rw [renamed_mention hprev hm] at h
    have houtside : d ∉ prev.toList := by
      intro hmem
      obtain rfl : prev = some d := Option.mem_toList.mp hmem
      have hpath : isInside (some d) = true := hw d List.mem_cons_self
      rw [hprev] at hpath
      cases hpath
    replace h := infix_of_not_mem houtside h
    refine List.infix_append_of_infix_right ?_
    rcases hf m with hsame | ⟨hbare, hword⟩
    · rw [hsame] at h
      exact infix_of_infix_append hw m.text ih h
    · have hname : d ∉ (f m).text := by
        rw [Mention.text, hbare, if_neg Bool.false_ne_true]
        exact fun hmem => absurd (hword d hmem) (Bool.eq_false_iff.mp hd)
      exact List.infix_append_of_infix_right (ih (infix_of_not_mem hname h))
  | hpass prev c s hpass ih =>
    rw [renamed_pass hpass] at h
    cases prev with
    | none => exact ih h
    | some b =>
      change d :: w <:+: b :: c :: s
      rcases List.infix_cons_iff.mp h with h | h
      · refine List.IsPrefix.isInfix ?_
        change d :: w <+: b :: c :: renamed f (some c) s at h
        cases w with
        | nil => exact List.cons_prefix_cons.mpr ⟨(List.cons_prefix_cons.mp h).1, List.nil_prefix⟩
        | cons e w =>
          simp only [List.forall_mem_cons] at hw
          have hinside : isInside (some e) = true := hw.2.1
          simp only [List.cons_prefix_cons] at h ⊢
          obtain ⟨rfl, rfl, h⟩ := h
          exact ⟨rfl, rfl, (prefix_renamed hinside hw.2.2).mp h⟩
      · exact List.infix_cons_iff.mpr (.inr (ih h))

end

/-- A renaming leaves `this` at the start of paths. -/
theorem ThisLeads.renamed (h : ThisLeads s) (hf : Plain f) : ThisLeads (renamed f none s) := by
  have hdollar : ∀ c ∈ "$this.".toList, isPathChar c = true := List.all_eq_true.mp (by decide)
  have hdot : ∀ c ∈ ".this.".toList, isPathChar c = true := List.all_eq_true.mp (by decide)
  constructor
  · intro hinfix
    exact h.1 (infix_of_infix_renamed hdollar (by decide) hf none s hinfix)
  · intro hinfix
    exact h.2 (infix_of_infix_renamed hdot (by decide) hf none s hinfix)

/-! ## Rules that rename -/

/-- The rule puts other mentions in the place of those it changes, and does nothing else, where
`this` starts a path. -/
structure Renames (rule : Rule) (f : Mention → Mention) : Prop where
  pass : ∀ prev s, ThisLeads (prev.toList ++ s) →
    isInside prev = true ∨ mention? s = none → rule prev s = none
  mention : ∀ prev (m : Mention) s, isInside prev = false → m.Valid →
    rule prev (m.text ++ '.' :: s) = some (m.text.length + 1, (f m).text ++ ['.']) ∨
      f m = m ∧ rule prev (m.text ++ '.' :: s) = none

theorem ThisLeads.of_suffix (h : ThisLeads t) (hs : s <:+ t) : ThisLeads s :=
  ⟨fun hdollar => h.1 (hdollar.trans hs.isInfix), fun hdot => h.2 (hdot.trans hs.isInfix)⟩

/-- The text behind a part of it. -/
theorem ThisLeads.drop (h : ThisLeads (prev.toList ++ (t ++ s))) :
    ThisLeads ((t.getLast?.or prev).toList ++ s) := by
  rcases List.eq_nil_or_concat' t with rfl | ⟨t, c, rfl⟩
  · exact h
  · refine h.of_suffix ⟨prev.toList ++ t, ?_⟩
    simp

namespace Renames

variable {rule : Rule} (h : Renames rule f)

include h

/-- Inside of a path the rule does nothing. -/
theorem substituteFrom_inside (hprev : isInside prev = true)
    (ht : ∀ c ∈ t, isPathChar c = true) (hs : ThisLeads (prev.toList ++ (t ++ s))) :
    substituteFrom rule prev 0 (t ++ s) = t ++ substituteFrom rule (t.getLast?.or prev) 0 s := by
  induction t generalizing prev with
  | nil => rfl
  | cons c t ih =>
    rw [List.forall_mem_cons] at ht
    have hinside : isInside (some c) = true := ht.1
    have htail : ThisLeads ((some c).toList ++ (t ++ s)) := hs.of_suffix (List.suffix_append _ _)
    rw [List.cons_append] at hs ⊢
    rw [substituteFrom_pass (h.pass prev _ hs (.inl hprev)), ih hinside ht.2 htail,
      List.getLast?_cons]
    cases t.getLast? <;> rfl

/-- **The rule is a renaming** of texts in which `this` starts paths. -/
theorem substituteFrom_eq (prev : Option Char) (s : List Char)
    (hs : ThisLeads (prev.toList ++ s)) : substituteFrom rule prev 0 s = renamed f prev s := by
  induction prev, s using mention_induction with
  | hnil prev => rfl
  | hmention prev m s hprev hm ih =>
    have hrule := h.mention prev m s hprev hm
    have hpath := fun e (he : e ∈ m.text ++ ['.']) => isPathChar_of_mem_text hm he
    rw [renamed_mention hprev hm]
    obtain ⟨c, t, hlast, htext⟩ := exists_text m
    have hlength : m.text.length = t.length := by simpa using congrArg List.length (htext [])
    rw [htext, List.append_nil, List.forall_mem_cons] at hpath
    rw [htext] at hrule hs ⊢
    have hrest : ThisLeads ((some '.').toList ++ s) := by
      rw [← hlast]
      exact ThisLeads.drop (hs.of_suffix (List.suffix_append _ _))
    rcases hrule with hrule | ⟨hsame, hrule⟩
    · rw [hlength] at hrule
      rw [substituteFrom_match hrule, hlast, ih hrest, List.append_assoc]
      rfl
    · have hinside : isInside (some c) = true := hpath.1
      rw [substituteFrom_pass hrule, h.substituteFrom_inside hinside hpath.2
        (hs.of_suffix (List.suffix_append _ _)), hlast, ih hrest, hsame, htext]
  | hpass prev c s hpass ih =>
    rw [substituteFrom_pass (h.pass prev _ hs hpass), renamed_pass hpass,
      ih (hs.of_suffix (List.suffix_append _ _))]

end Renames

end Trellis.Output
