import Mathlib.Data.List.TakeWhile
import Trellis.Jsx.Structural
import Trellis.Proofs.Text.Runs
import Trellis.Proofs.Text.Segments

/-!
# Clauses of a loop as they are written

Behind what a loop ranges over stand clauses: `index as i`, `let i = index` and `trackBy: key`.

* `Spelling` is a clause as it is written, with the white space inside of it.
* `Spelling.ofChars_of_known` and `Spelling.exists_known`: the clauses of the known forms are read
  as what they say, and no others are.
* `foldl_addClause`: of repeated clauses the last counts, and each unknown one is found.
-/

namespace Trellis.Text

/-- No white space is a word character. -/
theorem isWordChar_of_isBlank {c : Char} (h : isBlank c = true) : isWordChar c = false := by
  have hspaces : ∀ n ∈ [9, 10, 11, 12, 13, 28, 29, 30, 31, 32, 0x85, 0xA0, 0x1680, 0x2000, 0x2001,
      0x2002, 0x2003, 0x2004, 0x2005, 0x2006, 0x2007, 0x2008, 0x2009, 0x200A, 0x2028, 0x2029,
      0x202F, 0x205F, 0x3000], isWordChar (Char.ofNat n) = false := by
    decide +kernel
  have hmem := hspaces c.toNat
  rw [Char.ofNat_toNat] at hmem
  refine hmem ?_
  simp only [isBlank, Bool.or_eq_true, Bool.and_eq_true, decide_eq_true_eq, beq_iff_eq] at h
  simp only [List.mem_cons, List.not_mem_nil, or_false]
  omega

end Trellis.Text

namespace Trellis.Jsx.Loop

open Trellis.Text

/-! ## Pieces of the grammar -/

/-- White space. -/
def Gap (g : List Char) : Prop := g ≠ [] ∧ Spaces g

/-- A name of word characters. -/
def Name (w : List Char) : Prop := w ≠ [] ∧ ∀ c ∈ w, isWordChar c = true

instance (g : List Char) : Decidable (Gap g) :=
  inferInstanceAs (Decidable (_ ∧ _))

instance (w : List Char) : Decidable (Name w) :=
  decidable_of_iff (w ≠ [] ∧ w.all isWordChar = true) (and_congr_right fun _ => List.all_eq_true)

/-- A text without semicolons that starts and ends with something other than white space. -/
structure Phrase (cs : List Char) : Prop where
  nonempty : cs ≠ []
  stripped : stripChars cs = cs
  free : ';' ∉ cs

instance (cs : List Char) : Decidable (Phrase cs) :=
  decidable_of_iff (cs ≠ [] ∧ stripChars cs = cs ∧ ';' ∉ cs)
    ⟨fun h => ⟨h.1, h.2.1, h.2.2⟩, fun h => ⟨h.nonempty, h.stripped, h.free⟩⟩

/-- The text does not start with a character that satisfies `p`. -/
def StartsOff (p : Char → Bool) (cs : List Char) : Prop := ∀ c ∈ cs.head?, p c = false

instance (p : Char → Bool) : (cs : List Char) → Decidable (StartsOff p cs)
  | [] => isTrue nofun
  | c :: _ => decidable_of_iff (p c = false) (by simp [StartsOff])

section

variable {p : Char → Bool} {cs rest g w : List Char} {lit : String}

theorem startsOff_append (hg : g ≠ []) (h : StartsOff p g) (rest : List Char) :
    StartsOff p (g ++ rest) := by
  obtain ⟨c, g, rfl⟩ := List.exists_cons_of_ne_nil hg
  exact h

/-- Every text is one that starts with something other than white space, behind white space. -/
theorem exists_spaces (cs : List Char) :
    ∃ g rest, Spaces g ∧ StartsOff isBlank rest ∧ cs = g ++ rest :=
  ⟨cs.takeWhile isBlank, cs.dropWhile isBlank, fun _ => List.mem_takeWhile_imp,
    head?_dropWhile _ _, List.takeWhile_append_dropWhile.symm⟩

theorem literal?_eq_some_iff : literal? lit cs = some rest ↔ cs = lit.toList ++ rest := by
  rw [literal?]
  constructor
  · intro h
    split at h
    · next hprefix =>
      obtain ⟨rest, rfl⟩ := List.isPrefixOf_iff_prefix.mp hprefix
      rw [List.drop_left] at h
      rw [Option.some.inj h]
    · cases h
  · rintro rfl
    rw [if_pos (List.isPrefixOf_iff_prefix.mpr (List.prefix_append _ _)), List.drop_left]

theorem gap?_eq_some_iff :
    gap? cs = some rest ↔ ∃ g, Gap g ∧ StartsOff isBlank rest ∧ cs = g ++ rest := by
  constructor
  · intro h
    cases cs with
    | nil => cases h
    | cons c cs =>
      rw [gap?] at h
      split at h
      · next hc =>
        obtain rfl := Option.some.inj h
        refine ⟨c :: cs.takeWhile isBlank, ⟨List.cons_ne_nil _ _, ?_⟩, head?_dropWhile _ _, ?_⟩
        · exact List.forall_mem_cons.mpr ⟨hc, fun d => List.mem_takeWhile_imp⟩
        · rw [List.cons_append, List.takeWhile_append_dropWhile]
      · cases h
  · rintro ⟨g, ⟨hne, hg⟩, hrest, rfl⟩
    obtain ⟨c, g, rfl⟩ := List.exists_cons_of_ne_nil hne
    obtain ⟨hc, hg⟩ := List.forall_mem_cons.mp hg
    rw [List.cons_append, gap?, if_pos hc, dropWhile_run hg hrest]

/-- A fixed word behind white space. -/
theorem literal?_dropWhile_eq_some_iff
    (hlit : StartsOff isBlank (lit.toList ++ rest)) :
    literal? lit (cs.dropWhile isBlank) = some rest ↔
      ∃ g, Spaces g ∧ cs = g ++ (lit.toList ++ rest) := by
  rw [literal?_eq_some_iff]
  constructor
  · intro h
    refine ⟨cs.takeWhile isBlank, fun _ => List.mem_takeWhile_imp, ?_⟩
    rw [← h, List.takeWhile_append_dropWhile]
  · rintro ⟨g, hg, rfl⟩
    exact dropWhile_run hg hlit

theorem word?_eq_some_iff :
    word? cs = some (w, rest) ↔ Name w ∧ StartsOff isWordChar rest ∧ cs = w ++ rest := by
  rw [word?]
  constructor
  · intro h
    split at h
    · cases h
    · next hne =>
      cases h
      exact ⟨⟨hne, fun c => List.mem_takeWhile_imp⟩, head?_dropWhile _ _,
        List.takeWhile_append_dropWhile.symm⟩
  · rintro ⟨⟨hne, hw⟩, hrest, rfl⟩
    rw [takeWhile_run hw hrest, dropWhile_run hw hrest]
    split
    · contradiction
    · rfl

end

section

variable {cs rest g h w k : List Char}

theorem Gap.startsOff (hg : Gap g) (rest : List Char) : StartsOff isWordChar (g ++ rest) := by
  obtain ⟨c, g, rfl⟩ := List.exists_cons_of_ne_nil hg.1
  intro d hd
  obtain rfl := Option.some.inj hd
  exact isWordChar_of_isBlank (hg.2 c List.mem_cons_self)

theorem startsOff_of_stripped (hk : stripChars k = k) : StartsOff isBlank k :=
  (stripChars_eq_self_iff.mp hk).1

theorem Phrase.startsOff (hk : Phrase k) (rest : List Char) : StartsOff isBlank (k ++ rest) :=
  startsOff_append hk.nonempty (startsOff_of_stripped hk.stripped) rest

theorem isBlank_semicolon : isBlank ';' = false := by decide

theorem Name.phrase (hw : Name w) : Phrase w := by
  have hsolid (c : Char) (hc : c ∈ w) : isBlank c = false := by
    by_contra hblank
    have hword := hw.2 c hc
    rw [isWordChar_of_isBlank (by simpa using hblank)] at hword
    cases hword
  refine ⟨hw.1, stripChars_eq_self_iff.mpr ⟨fun c hc => ?_, fun c hc => ?_⟩, fun hmem => ?_⟩
  · exact hsolid c (List.mem_of_mem_head? hc)
  · exact hsolid c (List.mem_of_getLast? hc)
  · have hword := hw.2 ';' hmem
    revert hword
    decide +kernel

theorem Phrase.append {front mid back : List Char} (hfront : Phrase front) (hmid : ';' ∉ mid)
    (hback : Phrase back) : Phrase (front ++ (mid ++ back)) := by
  have hne : mid ++ back ≠ [] := List.append_ne_nil_of_right_ne_nil _ hback.nonempty
  refine ⟨List.append_ne_nil_of_left_ne_nil hfront.nonempty _,
    stripChars_eq_self_iff.mpr ⟨hfront.startsOff _, ?_⟩, ?_⟩
  · rw [List.getLast?_append_of_ne_nil _ hne, List.getLast?_append_of_ne_nil _ hback.nonempty]
    exact (stripChars_eq_self_iff.mp hback.stripped).2
  · simp [hfront.free, hmid, hback.free]

end

/-! ## Clauses -/

/-- A clause as it is written, with the white space inside of it. -/
inductive Spelling where
  /-- `index as i`. -/
  | indexAs (afterIndex afterAs name : List Char)
  /-- `let i = index`. -/
  | letIndex (afterLet name beforeSign afterSign : List Char)
  /-- `trackBy: key`. -/
  | trackBy (beforeColon afterColon key : List Char)
  | other (text : List Char)

namespace Spelling

def chars : Spelling → List Char
  | indexAs g h i => "index".toList ++ (g ++ ("as".toList ++ (h ++ i)))
  | letIndex g i h k => "let".toList ++ (g ++ (i ++ (h ++ ("=".toList ++ (k ++ "index".toList)))))
  | trackBy g h k => "trackBy".toList ++ (g ++ (":".toList ++ (h ++ k)))
  | other text => text

/-- The clause is of a known form. -/
def Known : Spelling → Prop
  | indexAs g h i => Gap g ∧ Gap h ∧ Name i
  | letIndex g i h k => Gap g ∧ Name i ∧ Spaces h ∧ Spaces k
  | trackBy g h k => Spaces g ∧ Spaces h ∧ Phrase k ∧ '\n' ∉ k
  | other _ => False

instance : (s : Spelling) → Decidable s.Known
  | indexAs _ _ _ => inferInstanceAs (Decidable (_ ∧ _))
  | letIndex _ _ _ _ => inferInstanceAs (Decidable (_ ∧ _))
  | trackBy _ _ _ => inferInstanceAs (Decidable (_ ∧ _))
  | other _ => inferInstanceAs (Decidable False)

/-- The index variable of a clause. -/
def index? : Spelling → Option String
  | indexAs _ _ i | letIndex _ i _ _ => some (String.ofList i)
  | _ => none

/-- The key of a clause. -/
def key? : Spelling → Option String
  | trackBy _ _ k => some (String.ofList k)
  | _ => none

/-- The text of a clause of no known form. -/
def unknown? : Spelling → Option String
  | other text => some (String.ofList text)
  | _ => none

/-- The clause is of a known form, or a text of no such form. -/
inductive Valid : Spelling → Prop
  | known {s : Spelling} (h : s.Known) : Valid s
  | other {text : List Char} (h : Phrase text) (hnone : ∀ s : Spelling, s.Known → s.chars ≠ text) :
    Valid (other text)

/-- What a clause says. -/
def clause : Spelling → Clause
  | indexAs _ _ i | letIndex _ i _ _ => .index (String.ofList i)
  | trackBy _ _ k => .trackBy (String.ofList k)
  | other text => .unknown (String.ofList text)

end Spelling

section

variable {cs : List Char} {v : String}

theorem indexAs?_eq_some_iff : indexAs? cs = some v ↔
    ∃ g h i, (Spelling.indexAs g h i).Known ∧ (Spelling.indexAs g h i).chars = cs ∧
      String.ofList i = v := by
  simp only [indexAs?, Option.bind_eq_bind, Option.bind_eq_some_iff, literal?_eq_some_iff,
    gap?_eq_some_iff]
  constructor
  · rintro ⟨_, rfl, _, ⟨g, hg, -, rfl⟩, _, rfl, _, ⟨h, hh, -, rfl⟩, ⟨i, rest⟩, hi, hend⟩
    obtain ⟨hname, -, rfl⟩ := word?_eq_some_iff.mp hi
    obtain ⟨hnil, hv⟩ := Option.ite_none_right_eq_some.mp hend
    refine ⟨g, h, i, ⟨hg, hh, hname⟩, ?_, Option.some.inj hv⟩
    rw [show rest = [] from List.isEmpty_iff.mp hnil, List.append_nil]
    rfl
  · rintro ⟨g, h, i, ⟨hg, hh, hi⟩, rfl, rfl⟩
    have has : StartsOff isBlank ("as".toList ++ (h ++ i)) :=
      startsOff_append (by decide) (by decide) _
    have hname : StartsOff isBlank i := startsOff_of_stripped hi.phrase.stripped
    exact ⟨_, rfl, _, ⟨g, hg, has, rfl⟩, _, rfl, i, ⟨h, hh, hname, rfl⟩, (i, []),
      word?_eq_some_iff.mpr ⟨hi, nofun, (List.append_nil i).symm⟩, rfl⟩

theorem afterLet?_eq_some_iff {rest : List Char} : afterLet? cs = some rest ↔
    ∃ g, Gap g ∧ StartsOff isBlank rest ∧ cs = "let".toList ++ (g ++ rest) := by
  simp only [afterLet?, Option.bind_eq_bind, Option.bind_eq_some_iff, literal?_eq_some_iff,
    gap?_eq_some_iff]
  constructor
  · rintro ⟨_, rfl, g, hg, hrest, rfl⟩
    exact ⟨g, hg, hrest, rfl⟩
  · rintro ⟨g, hg, hrest, rfl⟩
    exact ⟨_, rfl, g, hg, hrest, rfl⟩

theorem letIndex?_eq_some_iff : letIndex? cs = some v ↔
    ∃ g i h k, (Spelling.letIndex g i h k).Known ∧ (Spelling.letIndex g i h k).chars = cs ∧
      String.ofList i = v := by
  have hsign (rest : List Char) : StartsOff isBlank ("=".toList ++ rest) :=
    startsOff_append (by decide) (by decide) _
  have hindex (rest : List Char) : StartsOff isBlank ("index".toList ++ rest) :=
    startsOff_append (by decide) (by decide) _
  simp only [letIndex?, Option.bind_eq_bind, Option.bind_eq_some_iff, afterLet?_eq_some_iff,
    literal?_dropWhile_eq_some_iff (hsign _), literal?_dropWhile_eq_some_iff (hindex _)]
  constructor
  · rintro ⟨_, ⟨g, hg, -, rfl⟩, ⟨i, rest⟩, hi, _, ⟨h, hh, hrest⟩, after, ⟨k, hk, rfl⟩, hend⟩
    obtain ⟨hname, -, rfl⟩ := word?_eq_some_iff.mp hi
    obtain ⟨hnil, hv⟩ := Option.ite_none_right_eq_some.mp hend
    refine ⟨g, i, h, k, ⟨hg, hname, hh, hk⟩, ?_, Option.some.inj hv⟩
    rw [show rest = _ from hrest, show after = [] from List.isEmpty_iff.mp hnil, List.append_nil]
    rfl
  · rintro ⟨g, i, h, k, ⟨hg, hi, hh, hk⟩, rfl, rfl⟩
    have hbehind : StartsOff isWordChar (h ++ ("=".toList ++ (k ++ "index".toList))) := by
      by_cases hnil : h = []
      · rw [hnil, List.nil_append]
        exact startsOff_append (by decide) (by decide) _
      · exact Gap.startsOff ⟨hnil, hh⟩ _
    refine ⟨_, ⟨g, hg, hi.phrase.startsOff _, rfl⟩, (i, _),
      word?_eq_some_iff.mpr ⟨hi, hbehind, rfl⟩, k ++ "index".toList, ⟨h, hh, rfl⟩, [],
      ⟨k, hk, ?_⟩, rfl⟩
    rw [List.append_nil]

/-- The end of a stripped text is stripped, if it starts with something other than white space. -/
theorem stripChars_of_append {front key : List Char} (h : stripChars (front ++ key) = front ++ key)
    (hkey : StartsOff isBlank key) (hne : key ≠ []) : stripChars key = key := by
  refine stripChars_eq_self_iff.mpr ⟨hkey, ?_⟩
  have hlast := (stripChars_eq_self_iff.mp h).2
  rwa [List.getLast?_append_of_ne_nil _ hne] at hlast

theorem trackBy?_eq_some_iff (hcs : Phrase cs) : trackBy? cs = some v ↔
    ∃ g h k, (Spelling.trackBy g h k).Known ∧ (Spelling.trackBy g h k).chars = cs ∧
      String.ofList k = v := by
  have hcolon (rest : List Char) : StartsOff isBlank (":".toList ++ rest) :=
    startsOff_append (by decide) (by decide) _
  simp only [trackBy?, Option.bind_eq_bind, Option.bind_eq_some_iff, literal?_eq_some_iff,
    literal?_dropWhile_eq_some_iff (hcolon _)]
  constructor
  · rintro ⟨_, rfl, rest, ⟨g, hg, rfl⟩, hend⟩
    obtain ⟨h, k, hh, hk, rfl⟩ := exists_spaces rest
    rw [dropWhile_run hh hk] at hend
    obtain ⟨hkey, hv⟩ := Option.ite_none_left_eq_some.mp hend
    simp only [Bool.or_eq_true, List.isEmpty_iff, not_or, List.contains_iff_mem] at hkey
    have hassoc : "trackBy".toList ++ (g ++ (":".toList ++ (h ++ k))) =
        "trackBy".toList ++ (g ++ (":".toList ++ h)) ++ k := by
      simp only [List.append_assoc]
    rw [hassoc] at hcs
    have hstrip : stripChars k = k := stripChars_of_append hcs.stripped hk hkey.1
    have hfree : ';' ∉ k := fun hmem => hcs.free (List.mem_append_right _ hmem)
    refine ⟨g, h, k, ⟨hg, hh, ⟨hkey.1, hstrip, hfree⟩, hkey.2⟩, rfl, ?_⟩
    rw [← Option.some.inj hv, hstrip]
  · rintro ⟨g, h, k, ⟨hg, hh, hk, hline⟩, rfl, rfl⟩
    refine ⟨_, rfl, h ++ k, ⟨g, hg, rfl⟩, ?_⟩
    have hkey : (h ++ k).dropWhile isBlank = k :=
      dropWhile_run hh (startsOff_of_stripped hk.stripped)
    rw [hkey, hk.stripped, if_neg (by simp [hk.nonempty, hline])]

/-! ### Reading a clause -/

namespace Spelling

/-- A clause of a known form is read as what it says. -/
theorem ofChars_of_known {s : Spelling} (hs : s.Known) (hphrase : Phrase s.chars) :
    Clause.ofChars s.chars = s.clause := by
  -- The forms start with different letters, so that at most one of them is read.
  cases s with
  | indexAs g h i =>
    have hread := indexAs?_eq_some_iff.mpr ⟨g, h, i, hs, rfl, rfl⟩
    rw [Clause.ofChars, hread]
    rfl
  | letIndex g i h k =>
    have hread := letIndex?_eq_some_iff.mpr ⟨g, i, h, k, hs, rfl, rfl⟩
    have hindex : indexAs? (letIndex g i h k).chars = none := rfl
    rw [Clause.ofChars, hindex, Option.orElse_none, hread]
    rfl
  | trackBy g h k =>
    have hread := (trackBy?_eq_some_iff hphrase).mpr ⟨g, h, k, hs, rfl, rfl⟩
    have hindex : indexAs? (trackBy g h k).chars = none := rfl
    have hlet : letIndex? (trackBy g h k).chars = none := rfl
    rw [Clause.ofChars, hindex, Option.orElse_none, hlet, hread]
    rfl
  | other text => exact hs.elim

/-- What is not read as unknown is the text of a clause of a known form. -/
theorem exists_known (hcs : Phrase cs) (hread : Clause.ofChars cs ≠ .unknown (String.ofList cs)) :
    ∃ s : Spelling, s.Known ∧ s.chars = cs := by
  cases hindex : indexAs? cs with
  | some v =>
    obtain ⟨g, h, i, hs, hchars, -⟩ := indexAs?_eq_some_iff.mp hindex
    exact ⟨_, hs, hchars⟩
  | none =>
    cases hlet : letIndex? cs with
    | some v =>
      obtain ⟨g, i, h, k, hs, hchars, -⟩ := letIndex?_eq_some_iff.mp hlet
      exact ⟨_, hs, hchars⟩
    | none =>
      cases hkey : trackBy? cs with
      | some v =>
        obtain ⟨g, h, k, hs, hchars, -⟩ := (trackBy?_eq_some_iff hcs).mp hkey
        exact ⟨_, hs, hchars⟩
      | none =>
        rw [Clause.ofChars, hindex, Option.orElse_none, hlet, hkey] at hread
        exact (hread rfl).elim

end Spelling

end

namespace Spelling

variable {s : Spelling}

/-- A clause of a known form starts and ends with a word, or ends with a key. -/
theorem Known.phrase (hs : s.Known) : Phrase s.chars := by
  cases s with
  | indexAs g h i =>
    obtain ⟨hg, hh, hi⟩ := hs
    have hmid : ';' ∉ g ++ ("as".toList ++ h) := by
      simp [hg.2.not_mem isBlank_semicolon, hh.2.not_mem isBlank_semicolon]
    have hindex : Phrase "index".toList := ⟨by decide, by decide, by decide⟩
    have hwhole := hindex.append hmid hi.phrase
    rwa [List.append_assoc, List.append_assoc] at hwhole
  | letIndex g i h k =>
    obtain ⟨hg, hi, hh, hk⟩ := hs
    have hmid : ';' ∉ g ++ (i ++ (h ++ ("=".toList ++ k))) := by
      simp [hg.2.not_mem isBlank_semicolon, hi.phrase.free, hh.not_mem isBlank_semicolon,
        hk.not_mem isBlank_semicolon]
    have hlet : Phrase "let".toList := ⟨by decide, by decide, by decide⟩
    have hindex : Phrase "index".toList := ⟨by decide, by decide, by decide⟩
    have hwhole := hlet.append hmid hindex
    rwa [List.append_assoc, List.append_assoc, List.append_assoc, List.append_assoc] at hwhole
  | trackBy g h k =>
    obtain ⟨hg, hh, hk, -⟩ := hs
    have hmid : ';' ∉ g ++ (":".toList ++ h) := by
      simp [hg.not_mem isBlank_semicolon, hh.not_mem isBlank_semicolon]
    have htrackBy : Phrase "trackBy".toList := ⟨by decide, by decide, by decide⟩
    have hwhole := htrackBy.append hmid hk
    rwa [List.append_assoc, List.append_assoc] at hwhole
  | other text => exact hs.elim

theorem Valid.phrase (hs : s.Valid) : Phrase s.chars := by
  cases hs with
  | known h => exact h.phrase
  | other h => exact h

/-- A clause is read as what it says. -/
theorem Valid.ofChars (hs : s.Valid) : Clause.ofChars s.chars = s.clause := by
  cases hs with
  | known h => exact ofChars_of_known h h.phrase
  | @other text h hnone =>
    by_contra hread
    obtain ⟨s, hs, hchars⟩ := exists_known h hread
    exact hnone s hs hchars

/-- A text that is read as unknown is of no known form. -/
theorem valid_other {text : List Char} (h : Phrase text)
    (hread : Clause.ofChars text = .unknown (String.ofList text)) : Valid (.other text) := by
  refine .other h fun s hs hchars => ?_
  rw [← hchars, ofChars_of_known hs hs.phrase] at hread
  cases s with
  | other text => exact hs
  | indexAs | letIndex | trackBy => cases hread

end Spelling

/-- The finding about a clause of no known form. -/
def unknownClause (text : String) : Warning :=
  malformed ("has unknown clause: \"" ++ text ++ "\". " ++
    "Valid clauses: \"index as <var>\", \"let <var> = index\", \"trackBy: <expr>\"")

/-- Of repeated clauses the last counts, and each unknown one is found. -/
theorem foldl_addClause (xs : List Spelling) (acc : Loop × List Warning) :
    (xs.map Spelling.clause).foldl addClause acc =
      ({ acc.1 with
          index := (xs.filterMap Spelling.index?).getLast?.or acc.1.index
          trackBy := (xs.filterMap Spelling.key?).getLast?.or acc.1.trackBy },
        acc.2 ++ (xs.filterMap Spelling.unknown?).map unknownClause) := by
  induction xs using List.reverseRecOn with
  | nil => simp
  | append_singleton xs x ih =>
    rw [List.map_append, List.foldl_append, ih]
    simp only [List.filterMap_append, List.map_append, List.map_singleton, List.foldl_cons,
      List.foldl_nil, ← List.append_assoc]
    cases x <;>
      simp [Spelling.clause, Spelling.index?, Spelling.key?, Spelling.unknown?, addClause,
        unknownClause]

end Trellis.Jsx.Loop
