import Trellis.Proofs.Text.Marks

/-!
# Filling filled texts

A text is filled at some places, and the filled text is filled again. What is known of the places
of the second time is about a text that the first time has changed.

* `markedWhere_split`: marks of a text by its parts.
* `of_filled_or_eq`: places that change nothing of a filled text are filled already.
* `unmarked_of_suffix_filled` and `prefix_plain_of_filled`: an end or a start of a filled text that
  cannot reach into what fills a mark stands in the text itself.
* `filled_filled`: if the second time no place is in what was put in, and the others can be told
  from the text itself, then filling twice is filling once at the places of both times.
-/

namespace Trellis.Text.Marked

variable {p q : List Char → List Char → Bool} {before s t put : List Char} {m : Marked}

/-! ## Marks by parts -/

/-- The marks of the first part look at what follows it. -/
theorem markedWhere_split (p : List Char → List Char → Bool) (before t s : List Char) :
    markedWhere p before (t ++ s) =
      markedWhere (fun b a => p b (a ++ s)) before t ++ markedWhere p (before ++ t) s := by
  induction t generalizing before with
  | nil => simp [markedWhere]
  | cons c t ih =>
    rw [List.cons_append, markedWhere, ih, markedWhere, List.append_assoc]
    rfl

/-- A text without places that are marked. -/
theorem markedWhere_eq_unmarked
    (h : ∀ t₁ t₂, s = t₁ ++ t₂ → t₁ ≠ [] → p (before ++ t₁) t₂ = false) :
    markedWhere p before s = unmarked s := by
  have hnone : ∀ t₁ t₂, s = t₁ ++ t₂ → t₁ ≠ [] → p (before ++ t₁) (t₂ ++ []) = false := by
    simpa using h
  simpa [markedWhere] using markedWhere_append hnone

theorem length_filled_le (p q : List Char → List Char → Bool) (before s put : List Char) :
    ((markedWhere p before s).filled put).length ≤
      ((markedWhere (fun b a => p b a || q b a) before s).filled put).length := by
  induction s generalizing before with
  | nil => exact Nat.le_refl 0
  | cons c s ih =>
    have hrest := ih (before ++ [c])
    rw [markedWhere, markedWhere, filled_cons, filled_cons, List.length_cons, List.length_cons,
      List.length_append, List.length_append]
    cases p (before ++ [c]) s with
    | true => simpa using hrest
    | false =>
      rw [if_neg Bool.false_ne_true, List.length_nil]
      omega

/-- Where filling at the places of `q` as well changes nothing, they are places of `p`. -/
theorem of_filled_or_eq (hput : put ≠ [])
    (h : (markedWhere (fun b a => p b a || q b a) before s).filled put =
      (markedWhere p before s).filled put) :
    ∀ t₁ t₂, s = t₁ ++ t₂ → t₁ ≠ [] → q (before ++ t₁) t₂ = true →
      p (before ++ t₁) t₂ = true := by
  induction s generalizing before with
  | nil =>
    intro t₁ t₂ ht hnil
    exact absurd (List.append_eq_nil_iff.mp ht.symm).1 hnil
  | cons c s ih =>
    rw [markedWhere, markedWhere, filled_cons, filled_cons] at h
    have hrest := (List.cons.inj h).2
    have hhead : q (before ++ [c]) s = true → p (before ++ [c]) s = true := by
      intro hq
      by_contra hp
      rw [hq, Bool.or_true, if_pos rfl, if_neg hp, List.nil_append] at hrest
      have hlength := congrArg List.length hrest
      have hle := length_filled_le p q (before ++ [c]) s put
      have hpos := List.length_pos_iff.mpr hput
      rw [List.length_append] at hlength
      omega
    have hsame : (p (before ++ [c]) s || q (before ++ [c]) s) = p (before ++ [c]) s :=
      Bool.or_eq_left_iff_imp.mpr hhead
    rw [hsame] at hrest
    intro t₁ t₂ ht hnil hq
    obtain ⟨rfl, -⟩ | ⟨t₁, rfl, rfl⟩ := List.cons_eq_append_iff.mp ht
    · exact absurd rfl hnil
    · cases t₁ with
      | nil => exact hhead hq
      | cons d t₁ =>
        have htail := ih (List.append_cancel_left hrest) (d :: t₁) t₂ rfl (List.cons_ne_nil d t₁)
        rw [List.append_assoc, List.singleton_append] at htail
        exact htail hq

/-! ## Ends and starts of filled texts -/

variable {sep : Char} {rest : List Char}

/-- A text that ends a filled one, starts with a character that is not put in and has no separator,
ends the text itself, and there is no mark in it. -/
theorem unmarked_of_suffix_filled {g : Char} (hput : put = sep :: rest) (hg : g ∉ put)
    (ht : sep ∉ t) (h : g :: t <:+ m.filled put) : ∃ l, m = l ++ unmarked (g :: t) := by
  induction m using List.reverseRecOn generalizing t with
  | nil => simp at h
  | append_singleton m x ih =>
    obtain ⟨d, mark⟩ := x
    rw [filled_append, filled_cons, filled_nil, List.append_nil] at h
    have hmark : mark = false := by
      refine Bool.eq_false_iff.mpr ?_
      rintro rfl
      have hend : put <:+ filled put m ++ d :: put := (List.suffix_cons d put).trans
        (List.suffix_append _ _)
      rcases List.suffix_or_suffix_of_suffix h hend with hin | hin
      · exact hg (hin.subset List.mem_cons_self)
      · have hsep : sep ∈ g :: t := hin.subset (hput ▸ List.mem_cons_self)
        rcases List.mem_cons.mp hsep with rfl | hsep
        · exact hg (hput ▸ List.mem_cons_self)
        · exact ht hsep
    subst hmark
    obtain ⟨x, hx⟩ := h
    rcases List.eq_nil_or_concat' t with rfl | ⟨t, e, rfl⟩
    · obtain ⟨-, hd⟩ := List.append_inj' hx rfl
      obtain rfl : g = d := by simpa using hd
      exact ⟨m, rfl⟩
    · have hx' : (x ++ g :: t) ++ [e] = filled put m ++ [d] := by simpa using hx
      obtain ⟨hinit, hd⟩ := List.append_inj' hx' rfl
      obtain rfl : e = d := by simpa using hd
      obtain ⟨l, rfl⟩ := ih (fun hsep => ht (List.mem_append_left _ hsep)) ⟨x, hinit⟩
      refine ⟨l, ?_⟩
      simp [unmarked]

/-- A text that starts a filled one, and has no separator behind its first character, starts the
text itself. -/
theorem prefix_plain_of_filled {c : Char} (hput : put = sep :: rest) (ht : sep ∉ t)
    (h : c :: t <+: m.filled put) : c :: t <+: m.plain := by
  induction t generalizing c m with
  | nil =>
    cases m with
    | nil => simp at h
    | cons x m =>
      obtain ⟨rfl, -⟩ := List.cons_prefix_cons.mp h
      exact ⟨plain m, rfl⟩
  | cons e t ih =>
    cases m with
    | nil => simp at h
    | cons x m =>
      obtain ⟨d, mark⟩ := x
      rw [filled_cons] at h
      obtain ⟨rfl, hrest⟩ := List.cons_prefix_cons.mp h
      have hmark : mark = false := by
        refine Bool.eq_false_iff.mpr ?_
        rintro rfl
        rw [if_pos rfl, hput] at hrest
        obtain ⟨rfl, -⟩ := List.cons_prefix_cons.mp hrest
        exact ht List.mem_cons_self
      subst hmark
      exact List.cons_prefix_cons.mpr
        ⟨rfl, ih (fun hsep => ht (List.mem_cons_of_mem _ hsep)) hrest⟩

/-- White space at the start of a filled text is that of the text, if no mark follows white
space. -/
theorem head?_dropWhile_filled {blank : Char → Bool}
    (h : ∀ l c r, m = l ++ (c, true) :: r → blank c = false) :
    ((m.filled put).dropWhile blank).head? = (m.plain.dropWhile blank).head? := by
  induction m with
  | nil => rfl
  | cons x m ih =>
    obtain ⟨c, mark⟩ := x
    rw [filled_cons, plain_cons, List.dropWhile_cons, List.dropWhile_cons]
    split
    · next hc =>
      have hmark : mark = false := by
        refine Bool.eq_false_iff.mpr ?_
        rintro rfl
        rw [h [] c m rfl] at hc
        cases hc
      subst hmark
      exact ih fun l d r hm => h ((c, false) :: l) d r (congrArg ((c, false) :: ·) hm)
    · rfl

/-! ## Filling twice -/

variable {k : List Char → List Char → Bool}

/-- What stands before a place of a text that is filled, in the filled text. -/
def front (put : List Char) (k : List Char → List Char → Bool) (pre s : List Char) : List Char :=
  (markedWhere (fun b a => k b (a ++ s)) [] pre).filled put

/-- What stands after a place of a text that is filled, in the filled text. -/
def back (put : List Char) (k : List Char → List Char → Bool) (pre s : List Char) : List Char :=
  (markedWhere k pre s).filled put

theorem front_concat (pre s : List Char) (c : Char) :
    front put k (pre ++ [c]) s =
      front put k pre (c :: s) ++ c :: if k (pre ++ [c]) s then put else [] := by
  rw [front, markedWhere_split, filled_append, front]
  simp [markedWhere]

theorem back_cons (pre s : List Char) (c : Char) :
    back put k pre (c :: s) =
      c :: ((if k (pre ++ [c]) s then put else []) ++ back put k (pre ++ [c]) s) :=
  rfl

/-- **Filling twice is filling once.** The places of the second time are `p`. None of them is behind
a mark of the first time or in what was put there (`hmark`), and elsewhere they are those of the
text itself where `q` holds (`hplain`). -/
theorem filled_filled (w : List Char)
    (hmark : ∀ pre c s, w = pre ++ c :: s → k (pre ++ [c]) s = true → ∀ p₁ p₂, put = p₁ ++ p₂ →
      p (front put k pre (c :: s) ++ c :: p₁) (p₂ ++ back put k (pre ++ [c]) s) = false)
    (hplain : ∀ pre c s, w = pre ++ c :: s → k (pre ++ [c]) s = false →
      p (front put k pre (c :: s) ++ [c]) (back put k (pre ++ [c]) s) = q (pre ++ [c]) s) :
    (markedWhere p [] ((markedWhere k [] w).filled put)).filled put =
      (markedWhere (fun b a => k b a || q b a) [] w).filled put := by
  have hrun : ∀ s pre, w = pre ++ s →
      (markedWhere p (front put k pre s) (back put k pre s)).filled put =
        (markedWhere (fun b a => k b a || q b a) pre s).filled put := by
    intro s
    induction s with
    | nil => exact fun _ _ => rfl
    | cons c s ih =>
      intro pre hw
      have hrest := ih (pre ++ [c]) (by simpa using hw)
      rw [front_concat] at hrest
      rw [back_cons, markedWhere.eq_2 _ _ c s, filled_cons]
      cases hk : k (pre ++ [c]) s with
      | false =>
        rw [hk] at hrest
        rw [if_neg Bool.false_ne_true, List.nil_append, markedWhere, filled_cons,
          hplain pre c s hw hk, Bool.false_or]
        exact congrArg (fun z => c :: (_ ++ z)) hrest
      | true =>
        rw [hk] at hrest
        have hnone : markedWhere p (front put k pre (c :: s))
            (c :: put ++ back put k (pre ++ [c]) s) = unmarked (c :: put) ++
              markedWhere p (front put k pre (c :: s) ++ c :: put)
                (back put k (pre ++ [c]) s) := by
          refine markedWhere_append fun t₁ t₂ ht hnil => ?_
          obtain ⟨rfl, -⟩ | ⟨p₁, rfl, hput⟩ := List.cons_eq_append_iff.mp ht
          · exact absurd rfl hnil
          · exact hmark pre c s hw hk p₁ t₂ hput
        rw [if_pos rfl] at hrest ⊢
        rw [← List.cons_append, hnone, filled_append, filled_unmarked, hrest, Bool.true_or,
          if_pos rfl, List.cons_append]
  exact hrun w [] rfl

end Trellis.Text.Marked
