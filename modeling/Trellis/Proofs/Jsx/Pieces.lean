import Mathlib.Algebra.Group.Nat.Even
import Trellis.Jsx.Pipe

/-!
# Pieces between bars and colons

A chain is cut at bars, and each of its calls at colons. Both cuts pass over quotes, and the first
one over bars in pairs, which are operators.

* `Spot` is what a scan knows of a place in a text, and `outside` are the characters outside quotes.
* `EvenRuns` says that bars stand in runs of even length; `evenRuns_iff`: exactly if they can be
  taken off in pairs from left to right.
* `cutBars_append` and `cutColons_append`: a text whose bars, or colons, do not divide is passed as
  one piece. `Closed` texts are the ones after which a scan is where it was.
-/

namespace Trellis.Jsx.Pipe

open Trellis.Text

/-! ## Places in a text -/

/-- What a scan knows of a place: the character before it, and the quote that is open. -/
structure Spot where
  prev : Option Char := none
  quote : Option Char := none
  deriving DecidableEq, Repr

/-- The place after a character. -/
def Spot.pass (p : Spot) (c : Char) : Spot := ⟨some c, nextQuote p.prev p.quote c⟩

/-- The place after a text. -/
def Spot.after (p : Spot) (s : List Char) : Spot := s.foldl Spot.pass p

/-- The characters outside quotes, with the quotes themselves. -/
def outside (p : Spot) : List Char → List Char
  | [] => []
  | c :: s =>
    (if p.quote = none ∨ (p.pass c).quote = none then [c] else []) ++ outside (p.pass c) s

/-- Bars stand in runs of even length. -/
def EvenRuns (s : List Char) : Prop :=
  ∀ before n after, s = before ++ List.replicate n '|' ++ after →
    before.getLast? ≠ some '|' → after.head? ≠ some '|' → Even n

/-- Bars can be taken off in pairs, from left to right. -/
def paired : List Char → Bool
  | [] => true
  | c :: s =>
    if c = '|' then
      match s with
      | '|' :: s => paired s
      | _ => false
    else paired s

theorem paired_cons {c : Char} (h : c ≠ '|') (s : List Char) : paired (c :: s) = paired s := by
  rw [paired.eq_def]
  exact if_neg h

theorem paired_bars (s : List Char) : paired ('|' :: '|' :: s) = paired s := rfl

theorem evenRuns_nil : EvenRuns [] := by
  intro before n after hs hbefore hafter
  obtain ⟨-, rfl⟩ : before = [] ∧ n = 0 := by simp_all
  exact Even.zero

/-- Two bars more or less at the start of a text. -/
theorem evenRuns_bars {s : List Char} : EvenRuns ('|' :: '|' :: s) ↔ EvenRuns s := by
  constructor
  · intro h before n after hs hbefore hafter
    by_cases hnil : before = []
    · subst hnil
      have heven := h [] (n + 2) after (by simp [hs, List.replicate_succ]) (by simp) hafter
      exact (Nat.even_add.mp heven).mpr (by decide)
    · have hlast : ('|' :: '|' :: before).getLast? = before.getLast? := by
        rw [List.getLast?_cons_of_ne_nil (List.cons_ne_nil _ _),
          List.getLast?_cons_of_ne_nil hnil]
      exact h ('|' :: '|' :: before) n after (by simp [hs]) (hlast ▸ hbefore) hafter
  · intro h before n after hs hbefore hafter
    rcases before with _ | ⟨b, _ | ⟨b', before⟩⟩
    · rcases n with _ | _ | n
      · exact Even.zero
      · obtain rfl : '|' :: s = after := by simpa using hs
        exact absurd rfl hafter
      · have hrest : s = [] ++ List.replicate n '|' ++ after := by
          simpa [List.replicate_succ] using hs
        exact (h [] n after hrest (by simp) hafter).add (show Even 2 by decide)
    · obtain rfl : '|' = b := by simpa using congrArg List.head? hs
      exact absurd rfl hbefore
    · have hrest : s = before ++ List.replicate n '|' ++ after := by simp_all
      refine h before n after hrest (fun hlast => hbefore ?_) hafter
      rw [List.getLast?_cons, List.getLast?_cons, hlast]
      rfl

/-- Another character at the start of a text. -/
theorem evenRuns_cons {c : Char} (hc : c ≠ '|') {s : List Char} :
    EvenRuns (c :: s) ↔ EvenRuns s := by
  constructor
  · intro h before n after hs hbefore hafter
    by_cases hnil : before = []
    · subst hnil
      exact h [c] n after (by simp [hs]) (by simpa using hc) hafter
    · have hlast : (c :: before).getLast? = before.getLast? :=
        List.getLast?_cons_of_ne_nil hnil
      exact h (c :: before) n after (by simp [hs]) (hlast ▸ hbefore) hafter
  · intro h before n after hs hbefore hafter
    rcases before with _ | ⟨b, before⟩
    · rcases n with _ | n
      · exact Even.zero
      · exact absurd (by simpa [List.replicate_succ] using congrArg List.head? hs) hc
    · have hrest : s = before ++ List.replicate n '|' ++ after := by simp_all
      refine h before n after hrest (fun hlast => hbefore ?_) hafter
      rw [List.getLast?_cons, hlast]
      rfl

/-- A single bar is a run of odd length. -/
theorem not_evenRuns_bar {s : List Char} (hs : ∀ rest, s ≠ '|' :: rest) :
    ¬EvenRuns ('|' :: s) := by
  intro h
  have hodd := h [] 1 s (by simp) (by simp) fun hhead => by
    obtain ⟨rest, hrest⟩ := List.head?_eq_some_iff.mp hhead
    exact hs rest hrest
  exact absurd hodd (by decide)

theorem evenRuns_iff (s : List Char) : EvenRuns s ↔ paired s = true := by
  fun_induction paired s with
  | case1 => exact iff_of_true evenRuns_nil rfl
  | case2 s ih => rw [evenRuns_bars, ih]
  | case3 s hs => exact iff_of_false (not_evenRuns_bar hs) Bool.false_ne_true
  | case4 c s hc ih => rw [evenRuns_cons hc, ih]

instance (s : List Char) : Decidable (EvenRuns s) := decidable_of_iff _ (evenRuns_iff s).symm

/-! ## Passing a text -/

@[simp]
theorem Spot.after_nil (p : Spot) : p.after [] = p := rfl

@[simp]
theorem Spot.after_cons (p : Spot) (c : Char) (s : List Char) :
    p.after (c :: s) = (p.pass c).after s :=
  rfl

theorem Spot.after_append (p : Spot) (s t : List Char) :
    p.after (s ++ t) = (p.after s).after t :=
  List.foldl_append

theorem outside_append (p : Spot) (s t : List Char) :
    outside p (s ++ t) = outside p s ++ outside (p.after s) t := by
  induction s generalizing p with
  | nil => rfl
  | cons c s ih => rw [List.cons_append, outside, ih, outside, Spot.after_cons, List.append_assoc]

theorem outside_subset (p : Spot) (s : List Char) : outside p s ⊆ s := by
  induction s generalizing p with
  | nil => exact List.Subset.refl _
  | cons c s ih =>
    rw [outside]
    refine List.append_subset.mpr ⟨?_, fun x hx => List.mem_cons_of_mem _ (ih _ hx)⟩
    split <;> simp

/-- A character outside quotes. -/
theorem outside_cons {p : Spot} (h : p.quote = none) (c : Char) (s : List Char) :
    outside p (c :: s) = c :: outside (p.pass c) s := by
  rw [outside, if_pos (.inl h), List.singleton_append]

/-- Quotes are opened and closed by quotes only. -/
theorem quote_pass {c : Char} (hd : c ≠ '"') (hs : c ≠ '\x27') (p : Spot) :
    (p.pass c).quote = p.quote := by
  simp [Spot.pass, nextQuote, isLiveQuote, hd, hs]

/-- Only a backslash before a quote counts. -/
theorem nextQuote_prev {prev : Option Char} (h : prev ≠ some '\\') (quote : Option Char)
    (c : Char) : nextQuote prev quote c = nextQuote none quote c := by
  simp [nextQuote, isLiveQuote, h]

theorem pass_prev {prev : Option Char} (h : prev ≠ some '\\') (quote : Option Char) (c : Char) :
    Spot.pass ⟨prev, quote⟩ c = Spot.pass ⟨none, quote⟩ c := by
  rw [Spot.pass, Spot.pass, nextQuote_prev h]

/-- What stands outside quotes, if no backslash stands before the text. -/
theorem outside_prev {prev : Option Char} (h : prev ≠ some '\\') (quote : Option Char)
    (s : List Char) : outside ⟨prev, quote⟩ s = outside ⟨none, quote⟩ s := by
  cases s with
  | nil => rfl
  | cons c s => rw [outside, outside, pass_prev h]

theorem quote_after_prev {prev : Option Char} (h : prev ≠ some '\\') (quote : Option Char)
    (s : List Char) : (Spot.after ⟨prev, quote⟩ s).quote = (Spot.after ⟨none, quote⟩ s).quote := by
  cases s with
  | nil => rfl
  | cons c s => rw [Spot.after_cons, Spot.after_cons, pass_prev h]

theorem prev_after {p : Spot} (h : p.prev ≠ some '\\') {s : List Char} (hs : '\\' ∉ s) :
    (p.after s).prev ≠ some '\\' := by
  induction s generalizing p with
  | nil => exact h
  | cons c s ih =>
    rw [List.mem_cons, not_or] at hs
    exact ih (fun hprev => hs.1 (Option.some.inj hprev).symm) hs.2

/-! ### Pieces -/

theorem extendFirst_ne_nil (cs : List Char) (pieces : List (List Char)) :
    extendFirst cs pieces ≠ [] := by
  cases pieces <;> simp [extendFirst]

theorem extendFirst_nil {pieces : List (List Char)} (h : pieces ≠ []) :
    extendFirst [] pieces = pieces := by
  cases pieces with
  | nil => exact absurd rfl h
  | cons piece pieces => rfl

theorem extendFirst_extendFirst (s t : List Char) (pieces : List (List Char)) :
    extendFirst s (extendFirst t pieces) = extendFirst (s ++ t) pieces := by
  cases pieces <;> simp [extendFirst]

theorem cutBars_ne_nil (prev quote : Option Char) (s : List Char) : cutBars prev quote s ≠ [] := by
  unfold cutBars
  split
  · exact List.cons_ne_nil _ _
  · exact extendFirst_ne_nil _ _
  · exact List.cons_ne_nil _ _
  · exact extendFirst_ne_nil _ _

theorem cutColons_ne_nil (prev quote : Option Char) (s : List Char) :
    cutColons prev quote s ≠ [] := by
  unfold cutColons
  split
  · exact List.cons_ne_nil _ _
  · exact List.cons_ne_nil _ _
  · exact extendFirst_ne_nil _ _

/-- A character that is no bar, or stands inside quotes, belongs to its piece. -/
theorem cutBars_cons {p : Spot} {c : Char} (h : ¬(p.quote = none ∧ c = '|')) (s : List Char) :
    cutBars p.prev p.quote (c :: s) =
      extendFirst [c] (cutBars (p.pass c).prev (p.pass c).quote s) :=
  cutBars.eq_4 _ _ _ _ (fun _ hquote hc _ => h ⟨hquote, hc⟩) fun hquote hc => h ⟨hquote, hc⟩

theorem cutColons_cons {p : Spot} {c : Char} (h : ¬(p.quote = none ∧ c = ':')) (s : List Char) :
    cutColons p.prev p.quote (c :: s) =
      extendFirst [c] (cutColons (p.pass c).prev (p.pass c).quote s) :=
  cutColons.eq_3 _ _ _ _ fun hquote hc => h ⟨hquote, hc⟩

/-- A text whose bars outside quotes stand in pairs is passed as one piece. -/
theorem cutBars_append (s rest : List Char) (p : Spot) (h : paired (outside p s) = true) :
    cutBars p.prev p.quote (s ++ rest) =
      extendFirst s (cutBars (p.after s).prev (p.after s).quote rest) := by
  cases s with
  | nil => exact (extendFirst_nil (cutBars_ne_nil _ _ _)).symm
  | cons c s =>
    by_cases hbar : p.quote = none ∧ c = '|'
    · obtain ⟨hquote, rfl⟩ := hbar
      have hpass : (p.pass '|').quote = none := by rw [quote_pass (by decide) (by decide), hquote]
      rw [outside_cons hquote] at h
      -- the bar is the first of a pair, so the next character is a bar as well
      cases s with
      | nil => cases h
      | cons d s =>
        rw [outside_cons hpass] at h
        obtain rfl : d = '|' := by
          by_contra hd
          simp [paired, hd] at h
        have hsecond : (p.pass '|').pass '|' = ⟨some '|', none⟩ :=
          congrArg (Spot.mk _) ((quote_pass (by decide) (by decide) (p.pass '|')).trans hpass)
        rw [hsecond, paired_bars] at h
        have ih := cutBars_append s rest ⟨some '|', none⟩ h
        rw [hquote, List.cons_append, List.cons_append, cutBars, ih, extendFirst_extendFirst,
          Spot.after_cons, Spot.after_cons, hsecond]
        rfl
    · have hrest : paired (outside (p.pass c) s) = true := by
        rw [outside] at h
        split at h
        · next hout =>
          by_cases hc : c = '|'
          · exfalso
            subst hc
            rw [quote_pass (by decide) (by decide), or_self] at hout
            exact hbar ⟨hout, rfl⟩
          · rwa [List.singleton_append, paired_cons hc] at h
        · exact h
      rw [List.cons_append, cutBars_cons hbar, cutBars_append s rest _ hrest,
        extendFirst_extendFirst, Spot.after_cons]
      rfl
termination_by s.length

/-- A text without colons outside quotes is passed as one piece. -/
theorem cutColons_append (s rest : List Char) (p : Spot) (h : ':' ∉ outside p s) :
    cutColons p.prev p.quote (s ++ rest) =
      extendFirst s (cutColons (p.after s).prev (p.after s).quote rest) := by
  induction s generalizing p with
  | nil => exact (extendFirst_nil (cutColons_ne_nil _ _ _)).symm
  | cons c s ih =>
    rw [outside, List.mem_append, not_or] at h
    have hcolon : ¬(p.quote = none ∧ c = ':') := by
      rintro ⟨hquote, rfl⟩
      rw [if_pos (.inl hquote)] at h
      exact h.1 List.mem_cons_self
    rw [List.cons_append, cutColons_cons hcolon, ih _ h.2, extendFirst_extendFirst,
      Spot.after_cons]
    rfl

/-! ## Whole texts -/

theorem paired_append {s : List Char} (hs : paired s = true) (t : List Char) :
    paired (s ++ t) = paired t := by
  fun_induction paired s with
  | case1 => rfl
  | case2 s ih => exact ih hs
  | case3 s hs' => cases hs
  | case4 c s hc ih =>
    rw [List.cons_append, paired_cons hc]
    exact ih hs

/-- Characters that can stand in a chain without dividing it: none is a backslash, quotes are
closed, and bars outside of them stand in pairs. -/
structure Closed (s : List Char) : Prop where
  unescaped : '\\' ∉ s
  quote : (Spot.after {} s).quote = none
  bars : paired (outside {} s) = true

section

variable {prev : Option Char} {s t : List Char}

/-- After such characters the scan is where it was. -/
theorem Closed.after (h : Closed s) (hprev : prev ≠ some '\\') :
    ∃ prev', prev' ≠ some '\\' ∧ Spot.after ⟨prev, none⟩ s = ⟨prev', none⟩ := by
  have hquote : (Spot.after ⟨prev, none⟩ s).quote = none :=
    (quote_after_prev hprev none s).trans h.quote
  exact ⟨_, prev_after (p := ⟨prev, none⟩) hprev h.unescaped, congrArg (Spot.mk _) hquote⟩

theorem Closed.append (hs : Closed s) (ht : Closed t) : Closed (s ++ t) := by
  have hnone : (none : Option Char) ≠ some '\\' := nofun
  obtain ⟨prev, hprev, hafter⟩ := hs.after hnone
  change Spot.after {} s = _ at hafter
  refine ⟨?_, ?_, ?_⟩
  · rw [List.mem_append, not_or]
    exact ⟨hs.unescaped, ht.unescaped⟩
  · rw [Spot.after_append, hafter, quote_after_prev hprev]
    exact ht.quote
  · rw [outside_append, paired_append hs.bars, hafter, outside_prev hprev]
    exact ht.bars

theorem Closed.nil : Closed [] := ⟨List.not_mem_nil, rfl, rfl⟩

theorem closed_cons {c : Char} (hc : c ∉ ['"', '\x27', '|', '\\']) (ht : Closed t) :
    Closed (c :: t) := by
  simp only [List.mem_cons, List.not_mem_nil, or_false, not_or] at hc
  obtain ⟨hd, hs, hbar, hescape⟩ := hc
  refine Closed.append (s := [c]) ⟨?_, ?_, ?_⟩ ht
  · simpa using Ne.symm hescape
  · exact quote_pass hd hs {}
  · rw [outside_cons rfl, paired_cons hbar]
    rfl

/-- Such characters are one piece between bars. -/
theorem Closed.cutBars (h : Closed s) (hprev : prev ≠ some '\\') :
    ∃ prev', prev' ≠ some '\\' ∧ ∀ rest, Pipe.cutBars prev none (s ++ rest) =
      extendFirst s (Pipe.cutBars prev' none rest) := by
  obtain ⟨prev', hprev', hafter⟩ := h.after hprev
  refine ⟨prev', hprev', fun rest => ?_⟩
  have hcut := cutBars_append s rest ⟨prev, none⟩ (by rw [outside_prev hprev]; exact h.bars)
  rw [hafter] at hcut
  exact hcut

/-- If they have no colon outside quotes either, they are one piece between colons. -/
theorem Closed.cutColons (h : Closed s) (hcolon : ':' ∉ outside {} s)
    (hprev : prev ≠ some '\\') :
    ∃ prev', prev' ≠ some '\\' ∧ ∀ rest, Pipe.cutColons prev none (s ++ rest) =
      extendFirst s (Pipe.cutColons prev' none rest) := by
  obtain ⟨prev', hprev', hafter⟩ := h.after hprev
  refine ⟨prev', hprev', fun rest => ?_⟩
  have hcut := cutColons_append s rest ⟨prev, none⟩ (by rw [outside_prev hprev]; exact hcolon)
  rw [hafter] at hcut
  exact hcut

end

end Trellis.Jsx.Pipe
