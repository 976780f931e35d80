import Mathlib.Data.List.Basic
import Mathlib.Data.List.Induction

/-!
# Texts with marks

Where a text is added to another one is said by marks behind its characters.

* `Marked` texts can be read without their marks, as `plain` texts, and with a text in the place of
  every mark, as `filled` ones. `Marked.At` says between which parts of the text a mark stands.
* `markedWhere` marks all places with a property, and `at_markedWhere` says that it does.
* `eq_of_at_iff`: the places of the marks tell the marked text. `eq_of_filled_eq`: so does the
  filled text, if each mark follows a name and cannot be taken for the end of one.
-/

namespace Trellis.Text

/-- A text that says of each character whether a mark follows it. -/
abbrev Marked := List (Char × Bool)

/-- A text without marks. -/
def unmarked (s : List Char) : Marked := s.map (·, false)

/-- A text with a mark at its end. -/
def markedAtEnd : List Char → Marked
  | [] => []
  | [c] => [(c, true)]
  | c :: s => (c, false) :: markedAtEnd s

namespace Marked

/-- The text without its marks. -/
def plain (m : Marked) : List Char := m.map (·.1)

/-- The text with another one in the place of every mark. -/
def filled (put : List Char) (m : Marked) : List Char :=
  m.flatMap fun (c, mark) => c :: if mark then put else []

/-- A mark stands between these parts of the text. -/
def At (m : Marked) (before after : List Char) : Prop :=
  ∃ (l : Marked) (c : Char) (r : Marked),
    m = l ++ (c, true) :: r ∧ l.plain ++ [c] = before ∧ r.plain = after

variable {l m : Marked} {before after s put : List Char}

/-! ## Reading -/

@[simp]
theorem plain_nil : plain [] = [] := rfl

@[simp]
theorem plain_cons (c : Char × Bool) (m : Marked) : plain (c :: m) = c.1 :: m.plain := rfl

@[simp]
theorem plain_append (l m : Marked) : (l ++ m).plain = l.plain ++ m.plain := List.map_append

@[simp]
theorem plain_unmarked (s : List Char) : (unmarked s).plain = s := by
  induction s with
  | nil => rfl
  | cons c s ih => exact congrArg (c :: ·) ih

@[simp]
theorem plain_markedAtEnd (s : List Char) : (markedAtEnd s).plain = s := by
  fun_induction markedAtEnd s with
  | case1 => rfl
  | case2 c => rfl
  | case3 c s hs ih => exact congrArg (c :: ·) ih

@[simp]
theorem filled_nil (put : List Char) : filled put [] = [] := rfl

@[simp]
theorem filled_cons (put : List Char) (c : Char) (mark : Bool) (m : Marked) :
    filled put ((c, mark) :: m) = c :: ((if mark then put else []) ++ m.filled put) :=
  rfl

@[simp]
theorem filled_append (put : List Char) (l m : Marked) :
    (l ++ m).filled put = l.filled put ++ m.filled put :=
  List.flatMap_append

@[simp]
theorem filled_unmarked (put s : List Char) : (unmarked s).filled put = s := by
  induction s with
  | nil => rfl
  | cons c s ih => exact congrArg (c :: ·) ih

theorem filled_markedAtEnd (put : List Char) (h : s ≠ []) :
    (markedAtEnd s).filled put = s ++ put := by
  fun_induction markedAtEnd s with
  | case1 => exact absurd rfl h
  | case2 c => simp
  | case3 c s hs ih => exact congrArg (c :: ·) (ih hs)

theorem markedAtEnd_concat (s : List Char) (c : Char) :
    markedAtEnd (s ++ [c]) = unmarked s ++ [(c, true)] := by
  induction s with
  | nil => rfl
  | cons d s ih =>
    rw [List.cons_append, markedAtEnd, ih]
    · rfl
    · simp

/-! ## Where marks stand -/

theorem not_at_nil : ¬At [] before after := by
  rintro ⟨l, c, r, h, -⟩
  simp at h

theorem At.ne_nil (h : m.At before after) : before ≠ [] := by
  obtain ⟨l, c, r, -, rfl, -⟩ := h
  simp

theorem at_append : At (l ++ m) before after ↔
    (∃ a, l.At before a ∧ after = a ++ m.plain) ∨ ∃ b, m.At b after ∧ before = l.plain ++ b := by
  constructor
  · rintro ⟨x, c, y, h, rfl, rfl⟩
    rcases List.append_eq_append_iff.mp h with ⟨z, rfl, hm⟩ | ⟨z, rfl, hm⟩
    · exact .inr ⟨plain z ++ [c], ⟨z, c, y, hm, rfl, rfl⟩, by simp⟩
    · rcases List.cons_eq_append_iff.mp hm with ⟨rfl, rfl⟩ | ⟨z, rfl, rfl⟩
      · exact .inr ⟨[c], ⟨[], c, y, rfl, rfl, rfl⟩, by simp⟩
      · exact .inl ⟨plain z, ⟨x, c, z, rfl, rfl, rfl⟩, plain_append z m⟩
  · rintro (⟨a, ⟨x, c, y, rfl, rfl, rfl⟩, rfl⟩ | ⟨b, ⟨x, c, y, rfl, rfl, rfl⟩, rfl⟩)
    · exact ⟨x, c, y ++ m, by simp, rfl, plain_append y m⟩
    · exact ⟨l ++ x, c, y, by simp, by simp, rfl⟩

theorem at_cons {c : Char} {mark : Bool} : At ((c, mark) :: m) before after ↔
    (mark = true ∧ before = [c] ∧ after = m.plain) ∨ ∃ b, m.At b after ∧ before = c :: b := by
  constructor
  · rintro ⟨x, d, y, h, rfl, rfl⟩
    rcases List.cons_eq_append_iff.mp h with ⟨rfl, hy⟩ | ⟨x, rfl, rfl⟩
    · cases hy
      exact .inl ⟨rfl, rfl, rfl⟩
    · exact .inr ⟨plain x ++ [d], ⟨x, d, y, rfl, rfl, rfl⟩, rfl⟩
  · rintro (⟨rfl, rfl, rfl⟩ | ⟨b, ⟨x, d, y, rfl, rfl, rfl⟩, rfl⟩)
    · exact ⟨[], c, m, rfl, rfl, rfl⟩
    · exact ⟨(c, mark) :: x, d, y, rfl, rfl, rfl⟩

theorem not_at_unmarked : ¬At (unmarked s) before after := by
  induction s generalizing before with
  | nil => exact not_at_nil
  | cons c s ih =>
    intro h
    rcases at_cons.mp h with ⟨hmark, -⟩ | ⟨b, h, -⟩
    · cases hmark
    · exact ih h

theorem at_markedAtEnd (h : s ≠ []) : At (markedAtEnd s) before after ↔
    before = s ∧ after = [] := by
  fun_induction markedAtEnd s generalizing before with
  | case1 => exact absurd rfl h
  | case2 c => simp [at_cons, not_at_nil]
  | case3 c s hs ih =>
    simp only [at_cons, ih hs, Bool.false_eq_true, false_and, false_or]
    constructor
    · rintro ⟨b, ⟨rfl, rfl⟩, rfl⟩
      exact ⟨rfl, rfl⟩
    · rintro ⟨rfl, rfl⟩
      exact ⟨s, ⟨rfl, rfl⟩, rfl⟩

theorem append_of_at (h : m.At before after) : m.plain = before ++ after := by
  obtain ⟨l, c, r, rfl, rfl, rfl⟩ := h
  simp

/-- The places of the marks tell the marked text. -/
theorem eq_of_at_iff (hplain : l.plain = m.plain)
    (h : ∀ before after, l.At before after ↔ m.At before after) : l = m := by
  induction l generalizing m with
  | nil => exact (List.map_eq_nil_iff.mp hplain.symm).symm
  | cons x l ih =>
    obtain ⟨c, mark⟩ := x
    cases m with
    | nil => cases hplain
    | cons y m =>
      obtain ⟨d, mark'⟩ := y
      obtain ⟨rfl, hrest⟩ := List.cons.inj hplain
      have hsingle {k : Bool} {m : Marked} : At ((c, k) :: m) [c] (plain m) ↔ k = true := by
        rw [at_cons]
        refine ⟨?_, fun hk => .inl ⟨hk, rfl, rfl⟩⟩
        rintro (⟨hk, -⟩ | ⟨b, hat, hb⟩)
        · exact hk
        · exact absurd (List.cons.inj hb).2.symm hat.ne_nil
      have htail {k : Bool} {m : Marked} {b a : List Char} (hb : b ≠ []) :
          At ((c, k) :: m) (c :: b) a ↔ m.At b a := by
        simp [at_cons, hb]
      have hmark : mark = mark' := by
        have hiff := h [c] (plain l)
        rw [hsingle, show plain l = plain m from hrest, hsingle] at hiff
        exact Bool.eq_iff_iff.mpr hiff
      have hlm : l = m := by
        refine ih hrest fun b a => ?_
        by_cases hb : b = []
        · exact iff_of_false (fun hat => hat.ne_nil hb) fun hat => hat.ne_nil hb
        · rw [← htail hb, h, htail hb]
      rw [hmark, hlm]

/-- A text stays as it is exactly if it has no mark. -/
theorem filled_eq_plain_iff (hput : put ≠ []) :
    m.filled put = m.plain ↔ ∀ before after, ¬m.At before after := by
  have hle (m : Marked) : m.plain.length ≤ (m.filled put).length := by
    induction m with
    | nil => exact Nat.le_refl 0
    | cons x m ih =>
      obtain ⟨c, mark⟩ := x
      rw [plain_cons, filled_cons, List.length_cons, List.length_cons, List.length_append]
      omega
  constructor
  · rintro h _ _ ⟨l, c, r, rfl, rfl, rfl⟩
    have hl := hle l
    have hr := hle r
    have hpos : 0 < put.length := List.length_pos_iff.mpr hput
    have hlength := congrArg List.length h
    simp only [filled_append, filled_cons, if_true, plain_append, plain_cons, List.length_append,
      List.length_cons] at hlength
    omega
  · intro h
    have hnone : m = unmarked m.plain := by
      refine eq_of_at_iff (plain_unmarked _).symm fun b a => ?_
      exact iff_of_false (h b a) not_at_unmarked
    rw [hnone, filled_unmarked, plain_unmarked]

/-! ## Marks at all places with a property -/

/-- The text with a mark at each place with a property, which looks at what stands before and after
the place; `before` is what stands before the text. -/
def markedWhere (p : List Char → List Char → Bool) (before : List Char) : List Char → Marked
  | [] => []
  | c :: s => (c, p (before ++ [c]) s) :: markedWhere p (before ++ [c]) s

variable {p : List Char → List Char → Bool}

@[simp]
theorem plain_markedWhere : (markedWhere p before s).plain = s := by
  induction s generalizing before with
  | nil => rfl
  | cons c s ih => exact congrArg (c :: ·) ih

/-- The marks are where they should be. -/
theorem at_markedWhere {b : List Char} :
    (markedWhere p before s).At b after ↔ b ≠ [] ∧ b ++ after = s ∧ p (before ++ b) after := by
  induction s generalizing before b with
  | nil =>
    refine iff_of_false not_at_nil ?_
    rintro ⟨hb, h, -⟩
    exact hb (List.append_eq_nil_iff.mp h).1
  | cons c s ih =>
    rw [markedWhere, at_cons]
    constructor
    · rintro (⟨hp, rfl, rfl⟩ | ⟨b, h, rfl⟩)
      · exact ⟨List.cons_ne_nil c [], by simp, by simpa using hp⟩
      · obtain ⟨-, rfl, hp⟩ := ih.mp h
        exact ⟨List.cons_ne_nil c b, rfl, by simpa using hp⟩
    · rintro ⟨hb, h, hp⟩
      obtain ⟨rfl, -⟩ | ⟨b, rfl, rfl⟩ := List.append_eq_cons_iff.mp h
      · exact absurd rfl hb
      · by_cases hnil : b = []
        · subst hnil
          exact .inl ⟨hp, rfl, plain_markedWhere.symm⟩
        · exact .inr ⟨b, ih.mpr ⟨hnil, rfl, by simpa using hp⟩, rfl⟩

/-- A text without such places. -/
theorem markedWhere_append {t : List Char}
    (h : ∀ t₁ t₂, t = t₁ ++ t₂ → t₁ ≠ [] → p (before ++ t₁) (t₂ ++ s) = false) :
    markedWhere p before (t ++ s) = unmarked t ++ markedWhere p (before ++ t) s := by
  induction t generalizing before with
  | nil => simp [unmarked]
  | cons c t ih =>
    have hc : p (before ++ [c]) (t ++ s) = false := h [c] t rfl (List.cons_ne_nil c [])
    have hrest : markedWhere p (before ++ [c]) (t ++ s) =
        unmarked t ++ markedWhere p (before ++ [c] ++ t) s := by
      refine ih fun t₁ t₂ ht hnil => ?_
      simpa using h (c :: t₁) t₂ (congrArg (c :: ·) ht) (List.cons_ne_nil c t₁)
    rw [List.cons_append, markedWhere, hc, hrest, List.append_assoc]
    rfl

/-! ## Marks behind a name -/

/-- Each mark follows the name, which follows a character with a property; `before` is what stands
before the text. -/
def Follows (name : List Char) (ok : Char → Prop) (before : List Char) (m : Marked) : Prop :=
  ∀ b a, m.At b a → ∃ x g, before ++ b = x ++ g :: name ∧ ok g

variable {name : List Char} {ok : Char → Prop}

theorem follows_unmarked : Follows name ok before (unmarked s) :=
  fun _ _ h => absurd h not_at_unmarked

theorem Follows.left (h : Follows name ok before (l ++ m)) : Follows name ok before l :=
  fun b a hat => h b (a ++ m.plain) (at_append.mpr (.inl ⟨a, hat, rfl⟩))

theorem Follows.append (hl : Follows name ok before l)
    (hm : Follows name ok (before ++ l.plain) m) : Follows name ok before (l ++ m) := by
  intro b a hat
  rcases at_append.mp hat with ⟨a, hleft, -⟩ | ⟨b, hright, rfl⟩
  · exact hl b a hleft
  · rw [← List.append_assoc]
    exact hm b a hright

/-- No mark stands within a name. -/
theorem Follows.unmarked_end {x t : List Char} {c g : Char} {mark : Bool}
    (h : Follows name ok [] (m ++ [(c, mark)])) (hok : ∀ g, ok g → g ∉ name)
    (hm : (m ++ [(c, mark)]).plain = x ++ g :: t) (hg : ok g) (ht : t.length < name.length) :
    mark = false := by
  refine Bool.eq_false_iff.mpr ?_
  rintro rfl
  obtain ⟨y, g', hy, -⟩ := h (m.plain ++ [c]) [] ⟨m, c, [], rfl, rfl, rfl⟩
  have hsuffix : g :: t <:+ y ++ g' :: name := ⟨x, by rw [← hm, ← hy]; simp⟩
  have hname : g :: t <:+ name := by
    refine List.suffix_of_suffix_length_le hsuffix ?_ ht
    exact (List.suffix_cons g' name).trans (List.suffix_append y _)
  exact hok g hg (hname.subset List.mem_cons_self)

/-- What fills marks keeps a name whole that is not followed by one. -/
theorem Follows.suffix_filled {x t : List Char} {c g : Char}
    (h : Follows name ok [] (m ++ [(c, false)])) (hok : ∀ g, ok g → g ∉ name)
    (hm : (m ++ [(c, false)]).plain = x ++ g :: t) (hg : ok g) (ht : t.length ≤ name.length) :
    g :: t <:+ (m ++ [(c, false)]).filled put := by
  induction t using List.reverseRecOn generalizing m c with
  | nil =>
    obtain ⟨-, rfl⟩ : plain m = x ∧ c = g := by simpa using hm
    exact ⟨filled put m, by simp⟩
  | append_singleton t d ih =>
    have hparts : plain m ++ [c] = (x ++ g :: t) ++ [d] := by simpa using hm
    obtain ⟨hplain, hc⟩ := List.append_inj' hparts rfl
    obtain rfl : c = d := List.singleton_inj.mp hc
    rw [List.length_append, List.length_singleton] at ht
    rcases List.eq_nil_or_concat' m with rfl | ⟨m, ⟨e, mark⟩, rfl⟩
    · simp at hplain
    · -- the rest of the name is shorter than the name, so no mark stands behind it
      obtain rfl := h.left.unmarked_end hok hplain hg ht
      obtain ⟨y, hy⟩ := ih h.left hplain (Nat.le_of_succ_le ht)
      refine ⟨y, ?_⟩
      rw [filled_append _ (m ++ [(e, false)]), ← hy]
      simp

variable {rest : List Char} {sep : Char}

/-- Where what fills a mark ends, no name can end that has no mark behind it. -/
theorem Follows.mark_eq {c : Char} {mark : Bool} (hput : put = sep :: rest) (hsep : sep ∉ name)
    (hok : ∀ g, ok g → g ∉ name ∧ g ∉ put) (hl : Follows name ok [] (l ++ [(c, true)]))
    (hm : Follows name ok [] (m ++ [(c, mark)]))
    (hplain : (l ++ [(c, true)]).plain = (m ++ [(c, mark)]).plain)
    (hfilled : (l ++ [(c, true)]).filled put = (m ++ [(c, mark)]).filled put) : mark = true := by
  by_contra hmark
  obtain rfl : mark = false := by simpa using hmark
  obtain ⟨x, g, hx, hg⟩ := hl (l.plain ++ [c]) [] ⟨l, c, [], rfl, rfl, rfl⟩
  have hx' : (m ++ [(c, false)]).plain = x ++ g :: name := by simpa [← hplain] using hx
  have hname : g :: name <:+ (m ++ [(c, false)]).filled put :=
    hm.suffix_filled (fun g hg => (hok g hg).1) hx' hg (Nat.le_refl _)
  have hend : put <:+ (m ++ [(c, false)]).filled put :=
    ⟨l.filled put ++ [c], by rw [← hfilled]; simp⟩
  rcases List.suffix_or_suffix_of_suffix hname hend with h | h
  · exact (hok g hg).2 (h.subset List.mem_cons_self)
  · rcases List.suffix_cons_iff.mp h with h | h
    · exact (hok g hg).2 (h ▸ List.mem_cons_self)
    · exact hsep (h.subset (hput ▸ List.mem_cons_self))

/-- The filled text tells the marked one, if each mark follows the name and what fills it cannot be
taken for the end of a name. -/
theorem eq_of_filled_eq (hput : put = sep :: rest) (hsep : sep ∉ name)
    (hok : ∀ g, ok g → g ∉ name ∧ g ∉ put) (hl : Follows name ok [] l)
    (hm : Follows name ok [] m) (hplain : l.plain = m.plain)
    (hfilled : l.filled put = m.filled put) : l = m := by
  induction l using List.reverseRecOn generalizing m with
  | nil => exact (List.map_eq_nil_iff.mp hplain.symm).symm
  | append_singleton l x ih =>
    obtain ⟨c, mark⟩ := x
    rcases List.eq_nil_or_concat' m with rfl | ⟨m, ⟨d, mark'⟩, rfl⟩
    · simp at hplain
    · have hparts : plain l ++ [c] = plain m ++ [d] := by simpa using hplain
      obtain ⟨hrest, hc⟩ := List.append_inj' hparts rfl
      obtain rfl : c = d := List.singleton_inj.mp hc
      have hmark : mark = mark' := by
        refine Bool.eq_iff_iff.mpr ⟨?_, ?_⟩
        · rintro rfl
          exact hl.mark_eq hput hsep hok hm hplain hfilled
        · rintro rfl
          exact hm.mark_eq hput hsep hok hl hplain.symm hfilled.symm
      subst hmark
      have hlm : l = m := ih hl.left hm.left hrest (by simpa using hfilled)
      rw [hlm]

end Marked

end Trellis.Text
