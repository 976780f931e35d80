import Trellis.Proofs.Output.Address
import Trellis.Proofs.Text.Runs
import Trellis.Proofs.Text.Segments

/-!
# Addresses segment by segment

The rules that turn the place of a page into its address work on characters. On a path they work on
whole segments, with one exception: the rule about `_app` cuts the end of a segment off.

* `pathChars` are the characters of a path with given segments.
* `withoutFolder`, `withoutLead`, `withoutGroup` and `withIndex` are the rules on segments; each
  comes with the lemma that the rule on characters is this.
* `cutApp` is what the last rule leaves of the segments.
* `shortened_foldedSegments`: the folders that do not show are whole segments, and not the last one.
* `addressOf_path`: the address of a path has the segments that `shownSegments` gives, and all of
  them but the last are segments of the path (`mem_of_mem_dropLast_shown`).
-/

namespace Trellis.Output

open Trellis.Text

/-! ## Paths by segments -/

/-- The characters of a path with these segments. -/
def pathChars (segments : List (List Char)) : List Char := ['/'].intercalate segments

/-- No segment has a slash in it. -/
def Slashless (segments : List (List Char)) : Prop := ∀ s ∈ segments, '/' ∉ s

section

variable {s t name cs ds : List Char} {rest segments : List (List Char)}

theorem slashless_cons : Slashless (s :: rest) ↔ '/' ∉ s ∧ Slashless rest := List.forall_mem_cons

theorem pathChars_singleton (s : List Char) : pathChars [s] = s := List.intercalate_singleton

theorem pathChars_cons (s : List Char) (h : rest ≠ []) :
    pathChars (s :: rest) = s ++ '/' :: pathChars rest := by
  rw [pathChars, List.intercalate_cons_of_ne_nil h, List.append_assoc]
  rfl

theorem pathChars_append (front : List Char) (s : List Char) (rest : List (List Char)) :
    pathChars ((front ++ s) :: rest) = front ++ pathChars (s :: rest) := by
  by_cases hrest : rest = []
  · rw [hrest, pathChars_singleton, pathChars_singleton]
  · rw [pathChars_cons _ hrest, pathChars_cons _ hrest, List.append_assoc]

theorem pathChars_cons_cons (c : Char) (s : List Char) (rest : List (List Char)) :
    pathChars ((c :: s) :: rest) = c :: pathChars (s :: rest) :=
  pathChars_append [c] s rest

theorem splitAtEach_slashless (h : Slashless segments) (hne : segments ≠ []) :
    splitAtEach (· == '/') (pathChars segments) = segments :=
  splitAtEach_intercalate (by decide) hne fun s hs c hc => by
    simpa using fun hslash : c = '/' => h s hs (hslash ▸ hc)

/-- A path has only one list of segments. -/
theorem pathChars_inj {others : List (List Char)} (h : Slashless segments)
    (hothers : Slashless others) (hne : segments ≠ []) (hne' : others ≠ []) :
    pathChars segments = pathChars others ↔ segments = others := by
  refine ⟨fun heq => ?_, fun heq => congrArg _ heq⟩
  rw [← splitAtEach_slashless h hne, heq, splitAtEach_slashless hothers hne']

/-- The part before the first slash. -/
theorem append_slash_inj (hs : '/' ∉ s) (ht : '/' ∉ t) :
    s ++ '/' :: cs = t ++ '/' :: ds ↔ s = t ∧ cs = ds := by
  constructor
  · intro h
    have hfree : ∀ l : List Char, '/' ∉ l → ∀ c ∈ l, (c == '/') = false := fun l hl c hc => by
      simpa using fun hslash : c = '/' => hl (hslash ▸ hc)
    have hsplit := congrArg (splitAtEach (· == '/')) h
    rw [splitAtEach_line cs (hfree s hs) rfl, splitAtEach_line ds (hfree t ht) rfl] at hsplit
    obtain rfl := (List.cons.inj hsplit).1
    exact ⟨rfl, by simpa using h⟩
  · rintro ⟨rfl, rfl⟩
    rfl

/-- A path starts with a folder exactly if its first segment is that name and not the last one. -/
theorem prefix_pathChars_iff (hname : '/' ∉ name) (hs : '/' ∉ s) :
    name ++ ['/'] <+: pathChars (s :: rest) ↔ s = name ∧ rest ≠ [] := by
  by_cases hrest : rest = []
  · subst hrest
    rw [pathChars_singleton]
    exact ⟨fun h => absurd (h.subset (by simp)) hs, fun h => absurd rfl h.2⟩
  · rw [pathChars_cons s hrest, and_iff_left hrest]
    constructor
    · rintro ⟨after, hafter⟩
      rw [List.append_assoc, List.singleton_append, append_slash_inj hname hs] at hafter
      exact hafter.1.symm
    · rintro rfl
      exact ⟨pathChars rest, by simp⟩

theorem drop_pathChars (name : List Char) (hrest : rest ≠ []) :
    (pathChars (name :: rest)).drop (name ++ ['/']).length = pathChars rest := by
  have hparts : pathChars (name :: rest) = (name ++ ['/']) ++ pathChars rest := by
    rw [pathChars_cons name hrest, List.append_assoc]
    rfl
  rw [hparts, List.drop_left]

end

/-! ## Folders -/

/-- The segments without the first one, if it is a folder of this name. -/
def withoutLead (name : List Char) : List (List Char) → List (List Char)
  | s :: rest => if s = name ∧ rest ≠ [] then rest else s :: rest
  | [] => []

/-- The segments without the first folder called `routes` behind another folder. -/
def withoutFolder : List (List Char) → List (List Char)
  | s :: t :: rest =>
    if t = "routes".toList ∧ rest ≠ [] then s :: rest else s :: withoutFolder (t :: rest)
  | segments => segments

theorem dropStart_path {name : List Char} (hname : '/' ∉ name) {segments : List (List Char)}
    (h : Slashless segments) :
    dropStart (name ++ ['/']) (pathChars segments) = pathChars (withoutLead name segments) := by
  cases segments with
  | nil => cases name <;> rfl
  | cons s rest =>
    have hstarts : name ++ ['/'] <+: pathChars (s :: rest) ↔ s = name ∧ rest ≠ [] :=
      prefix_pathChars_iff hname (slashless_cons.mp h).1
    rw [dropStart, withoutLead]
    by_cases hlead : s = name ∧ rest ≠ []
    · rw [if_pos (List.isPrefixOf_iff_prefix.mpr (hstarts.mpr hlead)), if_pos hlead]
      obtain ⟨rfl, hrest⟩ := hlead
      exact drop_pathChars s hrest
    · rw [if_neg (mt List.isPrefixOf_iff_prefix.mp (mt hstarts.mp hlead)), if_neg hlead]

/-- A pattern that starts with a slash starts at no other character. -/
theorem replaceFirst_pass {s : List Char} (hs : '/' ∉ s) (pat new cs : List Char) :
    replaceFirst ('/' :: pat) new (s ++ cs) = s ++ replaceFirst ('/' :: pat) new cs := by
  induction s with
  | nil => rfl
  | cons c s ih =>
    obtain ⟨hc, hs⟩ := not_or.mp (mt List.mem_cons.mpr hs)
    have hmiss : ¬('/' :: pat).isPrefixOf (c :: (s ++ cs)) = true := fun hhit =>
      hc (List.cons_prefix_cons.mp (List.isPrefixOf_iff_prefix.mp hhit)).1
    rw [List.cons_append, List.cons_append, ← ih hs, replaceFirst, breakAt?, if_neg hmiss,
      replaceFirst]
    cases breakAt? ('/' :: pat) (s ++ cs) <;> rfl

theorem replaceFirst_hit {pat cs : List Char} (new : List Char) (h : pat <+: cs) :
    replaceFirst ('/' :: pat) new ('/' :: cs) = new ++ cs.drop pat.length := by
  have hhit : ('/' :: pat).isPrefixOf ('/' :: cs) = true :=
    List.isPrefixOf_iff_prefix.mpr (List.cons_prefix_cons.mpr ⟨rfl, h⟩)
  rw [replaceFirst, breakAt?, if_pos hhit]
  rfl

theorem replaceFirst_miss {pat cs : List Char} (new : List Char) (h : ¬pat <+: cs) :
    replaceFirst ('/' :: pat) new ('/' :: cs) = '/' :: replaceFirst ('/' :: pat) new cs := by
  have hmiss : ¬('/' :: pat).isPrefixOf ('/' :: cs) = true := fun hhit =>
    h (List.cons_prefix_cons.mp (List.isPrefixOf_iff_prefix.mp hhit)).2
  rw [replaceFirst, breakAt?, if_neg hmiss, replaceFirst]
  cases breakAt? ('/' :: pat) cs <;> rfl

theorem replaceFirst_path {segments : List (List Char)} (h : Slashless segments) :
    replaceFirst "/routes/".toList ['/'] (pathChars segments) =
      pathChars (withoutFolder segments) := by
  change replaceFirst ('/' :: ("routes".toList ++ ['/'])) ['/'] _ = _
  induction segments with
  | nil => rfl
  | cons s rest ih =>
    obtain ⟨hs, hrest⟩ := slashless_cons.mp h
    cases rest with
    | nil =>
      have hpass := replaceFirst_pass hs ("routes".toList ++ ['/']) ['/'] []
      rw [List.append_nil] at hpass
      rw [pathChars_singleton, hpass]
      exact (List.append_nil s).trans (pathChars_singleton s).symm
    | cons t rest =>
      have ht := (slashless_cons.mp hrest).1
      have hstarts : "routes".toList ++ ['/'] <+: pathChars (t :: rest) ↔
          t = "routes".toList ∧ rest ≠ [] := prefix_pathChars_iff (by decide) ht
      rw [pathChars_cons s (List.cons_ne_nil t rest), replaceFirst_pass hs, withoutFolder]
      by_cases hfolder : t = "routes".toList ∧ rest ≠ []
      · rw [if_pos hfolder, replaceFirst_hit _ (hstarts.mpr hfolder)]
        obtain ⟨rfl, hne⟩ := hfolder
        rw [drop_pathChars _ hne, pathChars_cons s hne]
        rfl
      · have hne : withoutFolder (t :: rest) ≠ [] := by
          cases rest with
          | nil => exact List.cons_ne_nil _ _
          | cons u rest =>
            rw [withoutFolder]
            split <;> exact List.cons_ne_nil _ _
        rw [if_neg hfolder, replaceFirst_miss _ (mt hstarts.mp hfolder), ih hrest,
          pathChars_cons s hne]

/-! ## Groups -/

/-- The segments behind a group and its folder `routes`: the first closing parenthesis is the end of
a segment, and the folder follows. -/
def behindGroup : List (List Char) → Option (List (List Char))
  | s :: rest =>
    if ')' ∈ s then
      if s.dropWhile (· != ')') = [')'] ∧ rest.head? = some "routes".toList ∧ rest.tail ≠ [] then
        some rest.tail
      else none
    else behindGroup rest
  | [] => none

/-- The segments without a group in parentheses and its folder. -/
def withoutGroup : List (List Char) → List (List Char)
  | ('(' :: s) :: rest =>
    if s.head? = some ')' then ('(' :: s) :: rest
    else (behindGroup (s :: rest)).getD (('(' :: s) :: rest)
  | segments => segments

/-- A closing parenthesis and a folder `routes`. -/
theorem prefix_close_iff {s : List Char} {rest : List (List Char)} (h : Slashless (s :: rest)) :
    ")/routes/".toList <+: ')' :: pathChars (s :: rest) ↔
      s = [] ∧ rest.head? = some "routes".toList ∧ rest.tail ≠ [] := by
  obtain ⟨hs, hrest⟩ := slashless_cons.mp h
  change ')' :: '/' :: ("routes".toList ++ ['/']) <+: _ ↔ _
  rw [List.cons_prefix_cons, and_iff_right rfl]
  cases rest with
  | nil =>
    rw [pathChars_singleton]
    exact ⟨fun hstarts => absurd (hstarts.subset List.mem_cons_self) hs,
      fun hall => nomatch hall.2.1⟩
  | cons t rest =>
    rw [pathChars_cons s (List.cons_ne_nil t rest), List.head?_cons, List.tail_cons,
      Option.some_inj, ← prefix_pathChars_iff (by decide) (slashless_cons.mp hrest).1]
    cases s with
    | nil => rw [List.nil_append, List.cons_prefix_cons, and_iff_right rfl, and_iff_right rfl]
    | cons c s =>
      rw [List.cons_append, List.cons_prefix_cons]
      refine ⟨fun hstarts => absurd (hstarts.1 ▸ List.mem_cons_self) hs, fun hall => nomatch hall.1⟩

/-- The characters from the first closing parenthesis on. -/
theorem behindGroup_path {segments : List (List Char)} (h : Slashless segments) :
    (if ")/routes/".toList <+: (pathChars segments).dropWhile (· != ')') then
      some (((pathChars segments).dropWhile (· != ')')).drop 9) else none) =
      (behindGroup segments).map pathChars := by
  induction segments with
  | nil => rfl
  | cons s rest ih =>
    obtain ⟨hs, hrest⟩ := slashless_cons.mp h
    rw [behindGroup]
    by_cases hclose : ')' ∈ s
    · obtain ⟨front, back, rfl, hfront⟩ := List.eq_append_cons_of_mem hclose
      have hpass (cs : List Char) : (front ++ ')' :: cs).dropWhile (· != ')') = ')' :: cs :=
        dropWhile_run (forall_bne hfront) (by simp)
      have hback : '/' ∉ back := fun hslash => hs (by simp [hslash])
      have hstarts := prefix_close_iff (slashless_cons.mpr ⟨hback, hrest⟩)
      have hpath : pathChars ((front ++ ')' :: back) :: rest) =
          front ++ ')' :: pathChars (back :: rest) := by
        rw [pathChars_append]
        exact congrArg (front ++ ·) (pathChars_cons_cons ')' back rest)
      rw [if_pos hclose, hpath, hpass, hpass]
      by_cases hfolder : ')' :: back = [')'] ∧ rest.head? = some "routes".toList ∧ rest.tail ≠ []
      · obtain ⟨hsegment, hhead, htail⟩ := hfolder
        obtain rfl : back = [] := by simpa using hsegment
        rw [if_pos (hstarts.mpr ⟨rfl, hhead, htail⟩), if_pos ⟨rfl, hhead, htail⟩]
        obtain ⟨after, rfl⟩ : ∃ after, rest = "routes".toList :: after :=
          List.head?_eq_some_iff.mp hhead
        have hdrop := drop_pathChars "routes".toList htail
        rw [pathChars_cons [] (List.cons_ne_nil _ after)]
        exact congrArg some hdrop
      · have hmiss : ¬(back = [] ∧ rest.head? = some "routes".toList ∧ rest.tail ≠ []) :=
          fun hall => hfolder ⟨by rw [hall.1], hall.2⟩
        rw [if_neg (mt hstarts.mp hmiss), if_neg hfolder]
        rfl
    · have hpass : ∀ cs : List Char, (s ++ cs).dropWhile (· != ')') = cs.dropWhile (· != ')') :=
        fun cs => List.dropWhile_append_of_pos (forall_bne hclose)
      rw [if_neg hclose, ← ih hrest]
      by_cases hnil : rest = []
      · subst hnil
        rw [pathChars_singleton, ← List.append_nil s, hpass]
        rfl
      · rw [pathChars_cons s hnil, hpass, List.dropWhile_cons_of_pos (by decide)]

theorem drop_takeWhile (p : Char → Bool) (cs : List Char) :
    cs.drop (cs.takeWhile p).length = cs.dropWhile p := by
  have h : (cs.takeWhile p ++ cs.dropWhile p).drop (cs.takeWhile p).length = cs.dropWhile p :=
    List.drop_left
  rwa [List.takeWhile_append_dropWhile] at h

/-- A name that is closed at once starts with the parenthesis. -/
theorem head_of_takeWhile_eq_nil {s cs : List Char} {rest : List (List Char)}
    (hname : (pathChars (s :: rest)).takeWhile (· != ')') = [])
    (hclose : ')' :: cs <+: (pathChars (s :: rest)).dropWhile (· != ')')) : s.head? = some ')' := by
  have hwhole := List.takeWhile_append_dropWhile (p := (· != ')')) (l := pathChars (s :: rest))
  rw [hname, List.nil_append] at hwhole
  rw [hwhole] at hclose
  cases s with
  | nil =>
    by_cases hrest : rest = []
    · rw [hrest, pathChars_singleton] at hclose
      exact absurd (List.prefix_nil.mp hclose) (List.cons_ne_nil _ _)
    · rw [pathChars_cons [] hrest, List.nil_append, List.cons_prefix_cons] at hclose
      exact absurd hclose.1 (by decide)
  | cons d s =>
    rw [pathChars_cons_cons, List.cons_prefix_cons] at hclose
    rw [List.head?_cons, hclose.1]

theorem dropGroup_cons (cs : List Char) :
    dropGroup ('(' :: cs) =
      if cs.takeWhile (· != ')') ≠ [] ∧ ")/routes/".toList <+: cs.dropWhile (· != ')') then
        (cs.dropWhile (· != ')')).drop 9
      else '(' :: cs := by
  rw [dropGroup, drop_takeWhile]
  by_cases h : cs.takeWhile (· != ')') ≠ [] ∧ ")/routes/".toList <+: cs.dropWhile (· != ')')
  · rw [if_pos h, if_pos (by simpa using h)]
  · rw [if_neg h, if_neg (by simpa using h)]

theorem dropGroup_of_ne {c : Char} (h : c ≠ '(') (cs : List Char) :
    dropGroup (c :: cs) = c :: cs := by
  unfold dropGroup
  split
  · next rest heq => exact absurd (List.cons.inj heq).1 h
  · rfl

theorem dropGroup_path {segments : List (List Char)} (h : Slashless segments) :
    dropGroup (pathChars segments) = pathChars (withoutGroup segments) := by
  rcases segments with _ | ⟨_ | ⟨c, s⟩, rest⟩
  · rfl
  · by_cases hrest : rest = []
    · rw [hrest]
      rfl
    · rw [pathChars_cons [] hrest, List.nil_append, dropGroup_of_ne (by decide)]
      exact (pathChars_cons [] hrest).symm
  · have hpath := pathChars_cons_cons c s rest
    by_cases hc : c = '('
    · subst hc
      have hs : '/' ∉ s := fun hslash => h _ List.mem_cons_self (List.mem_cons_of_mem _ hslash)
      have hbehind := behindGroup_path (slashless_cons.mpr ⟨hs, (slashless_cons.mp h).2⟩)
      rw [hpath, dropGroup_cons, withoutGroup]
      by_cases hfirst : s.head? = some ')'
      · have hname : (pathChars (s :: rest)).takeWhile (· != ')') = [] := by
          obtain ⟨s, rfl⟩ := List.head?_eq_some_iff.mp hfirst
          rw [pathChars_cons_cons]
          rfl
        rw [if_neg (fun hall => hall.1 hname), if_pos hfirst, hpath]
      · rw [if_neg hfirst]
        by_cases hclose : ")/routes/".toList <+: (pathChars (s :: rest)).dropWhile (· != ')')
        · rw [if_pos hclose] at hbehind
          obtain ⟨after, hafter, hdrop⟩ := Option.map_eq_some_iff.mp hbehind.symm
          rw [if_pos ⟨fun hname => hfirst (head_of_takeWhile_eq_nil hname hclose), hclose⟩, hafter,
            Option.getD_some, hdrop]
        · rw [if_neg hclose] at hbehind
          rw [if_neg (fun hall => hclose hall.2), Option.map_eq_none_iff.mp hbehind.symm,
            Option.getD_none, hpath]
    · rw [hpath, dropGroup_of_ne hc, ← hpath, withoutGroup]
      rintro s' rest' heq
      exact hc (List.cons.inj (List.cons.inj heq).1).1

/-! ## The last segment -/

/-- A single segment `home` is the index. -/
def withIndex : List (List Char) → List (List Char)
  | [s] => [replaceWhole "home".toList "index".toList s]
  | segments => segments

/-- What the rule about `_app` leaves of the segments. A line feed behind a slash goes to the
segment before it. -/
def cutApp : List (List Char) → List (List Char)
  | [] => []
  | [s] => [dropApp s]
  | s :: t :: rest =>
    if rest = [] ∧ t = ['\n'] ∧ "_app".toList <:+ s then [dropApp s ++ t]
    else s :: cutApp (t :: rest)

theorem beforeFinalBreak_cases (cs : List Char) :
    beforeFinalBreak cs = cs ∨ cs = beforeFinalBreak cs ++ ['\n'] := by
  rw [beforeFinalBreak]
  split
  · next h =>
    obtain ⟨front, rfl⟩ := List.getLast?_eq_some_iff.mp h
    simp
  · exact .inl rfl

theorem beforeFinalBreak_append {cs : List Char} (front : List Char) (h : cs ≠ []) :
    beforeFinalBreak (front ++ cs) = front ++ beforeFinalBreak cs := by
  rw [beforeFinalBreak, beforeFinalBreak, List.getLast?_append_of_ne_nil front h]
  split
  · rw [List.dropLast_append_of_ne_nil h]
  · rfl

theorem replaceWhole_path (segments : List (List Char)) :
    replaceWhole "home".toList "index".toList (pathChars segments) =
      pathChars (withIndex segments) := by
  rcases segments with _ | ⟨s, _ | ⟨t, rest⟩⟩
  · rfl
  · rw [withIndex, pathChars_singleton, pathChars_singleton]
  · have hpath := pathChars_cons s (List.cons_ne_nil t rest)
    -- The slash is no line feed, so it is in what is compared.
    have hslash : '/' ∈ beforeFinalBreak (pathChars (s :: t :: rest)) := by
      have hmem : '/' ∈ pathChars (s :: t :: rest) := by
        rw [hpath]
        simp
      rcases beforeFinalBreak_cases (pathChars (s :: t :: rest)) with heq | heq
      · rwa [heq]
      · rw [heq, List.mem_append] at hmem
        exact hmem.resolve_right (by decide)
    have hne : ¬(beforeFinalBreak (pathChars (s :: t :: rest)) == "home".toList) = true := by
      intro heq
      rw [beq_iff_eq.mp heq] at hslash
      exact absurd hslash (by decide)
    rw [replaceWhole, if_neg hne]
    rfl

theorem cutApp_ne_nil {segments : List (List Char)} (h : segments ≠ []) : cutApp segments ≠ [] := by
  rcases segments with _ | ⟨s, _ | ⟨t, rest⟩⟩
  · exact absurd rfl h
  · exact List.cons_ne_nil _ _
  · rw [cutApp]
    split <;> exact List.cons_ne_nil _ _

/-- Behind a slash, a word without slashes and a slash after it end a text exactly if they end what
stands there. -/
theorem suffix_folder_iff {word cs : List Char} (hword : '/' ∉ word) {front : List Char}
    (h : cs = [] → ¬word <:+ front) :
    word ++ ['/'] <:+ front ++ '/' :: cs ↔ word ++ ['/'] <:+ cs := by
  rcases List.eq_nil_or_concat cs with rfl | ⟨cs, c, rfl⟩
  · rw [List.suffix_append_inj_of_length_eq rfl, and_iff_left rfl, List.suffix_nil]
    exact ⟨fun hfront => absurd hfront (h rfl), fun hnil => absurd hnil (by simp)⟩
  · have hlength : ['/'].length = [c].length := rfl
    rw [List.concat_eq_append, ← List.cons_append, ← List.append_assoc,
      List.suffix_append_inj_of_length_eq hlength, List.suffix_append_inj_of_length_eq hlength,
      suffix_append_cons_iff hword]

/-- The text without a word that ends it before a final line feed. -/
def cutWord (word cs : List Char) : List Char :=
  (beforeFinalBreak cs).take ((beforeFinalBreak cs).length - word.length) ++
    cs.drop (beforeFinalBreak cs).length

theorem dropApp_eq (cs : List Char) :
    dropApp cs =
      if "_app".toList ++ ['/'] <:+ beforeFinalBreak cs then cutWord ("_app".toList ++ ['/']) cs
      else if "_app".toList <:+ beforeFinalBreak cs then cutWord "_app".toList cs
      else cs := by
  have hfolder : "_app/".toList = "_app".toList ++ ['/'] := rfl
  simp only [dropApp, hfolder, List.find?_cons, List.find?_nil]
  by_cases hf : "_app".toList ++ ['/'] <:+ beforeFinalBreak cs
  · rw [if_pos hf, List.isSuffixOf_iff_suffix.mpr hf]
    rfl
  · rw [if_neg hf, Bool.eq_false_iff.mpr (mt List.isSuffixOf_iff_suffix.mp hf)]
    by_cases hw : "_app".toList <:+ beforeFinalBreak cs
    · rw [if_pos hw, List.isSuffixOf_iff_suffix.mpr hw]
      rfl
    · rw [if_neg hw, Bool.eq_false_iff.mpr (mt List.isSuffixOf_iff_suffix.mp hw)]

theorem cutWord_slash {word cs : List Char} (front : List Char) (hne : cs ≠ [])
    (h : word <:+ beforeFinalBreak cs) :
    cutWord word (front ++ '/' :: cs) = front ++ '/' :: cutWord word cs := by
  have hbreak : beforeFinalBreak (front ++ '/' :: cs) = front ++ '/' :: beforeFinalBreak cs := by
    rw [List.append_cons front, beforeFinalBreak_append _ hne, ← List.append_cons]
  have hle := h.length_le
  have htake : (front ++ '/' :: beforeFinalBreak cs).length - word.length =
      front.length + ((beforeFinalBreak cs).length - word.length + 1) := by
    rw [List.length_append, List.length_cons]
    omega
  rw [cutWord, cutWord, hbreak, htake, List.length_append, List.take_length_add_append,
    List.drop_length_add_append, List.length_cons, List.take_succ_cons, List.drop_succ_cons,
    List.append_assoc, List.cons_append]

/-- **The last rule works on what stands behind the last slash**, unless only a line feed does. -/
theorem dropApp_slash {front cs : List Char} (hne : cs ≠ [])
    (h : cs = ['\n'] → ¬"_app".toList <:+ front) :
    dropApp (front ++ '/' :: cs) = front ++ '/' :: dropApp cs := by
  have hbreak : beforeFinalBreak (front ++ '/' :: cs) = front ++ '/' :: beforeFinalBreak cs := by
    rw [List.append_cons front, beforeFinalBreak_append _ hne, ← List.append_cons]
  have hlone : beforeFinalBreak cs = [] → ¬"_app".toList <:+ front := fun hnil => by
    refine h ((beforeFinalBreak_cases cs).resolve_left ?_ |>.trans ?_)
    · rw [hnil]
      exact hne.symm
    · rw [hnil]
      rfl
  have hname : "_app".toList <:+ front ++ '/' :: beforeFinalBreak cs ↔
      "_app".toList <:+ beforeFinalBreak cs := suffix_append_cons_iff (by decide) front
  have hfolder := @suffix_folder_iff "_app".toList (beforeFinalBreak cs) (by decide) front hlone
  rw [dropApp_eq, dropApp_eq, hbreak]
  by_cases hf : "_app".toList ++ ['/'] <:+ beforeFinalBreak cs
  · rw [if_pos (hfolder.mpr hf), if_pos hf, cutWord_slash front hne hf]
  · rw [if_neg (mt hfolder.mp hf), if_neg hf]
    by_cases hw : "_app".toList <:+ beforeFinalBreak cs
    · rw [if_pos (hname.mpr hw), if_pos hw, cutWord_slash front hne hw]
    · rw [if_neg (mt hname.mp hw), if_neg hw]

theorem cutWord_of {word start tail cs : List Char} (hcs : cs = start ++ word ++ tail)
    (h : beforeFinalBreak cs = start ++ word) : cutWord word cs = start ++ tail := by
  rw [cutWord, h, hcs, List.drop_left, List.length_append, Nat.add_sub_cancel, List.take_left]

/-- Behind `_app` and a slash only a line feed is left, and goes to the segment before. -/
theorem dropApp_lone {front : List Char} (h : "_app".toList <:+ front) :
    dropApp (front ++ ['/', '\n']) = dropApp front ++ ['\n'] := by
  obtain ⟨start, rfl⟩ := h
  have hlone : beforeFinalBreak (start ++ "_app".toList ++ ['/', '\n']) =
      start ++ ("_app".toList ++ ['/']) := by
    rw [beforeFinalBreak_append _ (List.cons_ne_nil _ _), List.append_assoc]
    rfl
  have hplain : beforeFinalBreak (start ++ "_app".toList) = start ++ "_app".toList :=
    beforeFinalBreak_append start (by decide)
  have hfolder : ¬"_app".toList ++ ['/'] <:+ start ++ "_app".toList := fun hsuffix => by
    have hlast : start ++ "_app".toList = (start ++ "_ap".toList) ++ ['p'] := by
      rw [List.append_assoc]
      rfl
    rw [hlast, List.suffix_append_inj_of_length_eq (by rfl)] at hsuffix
    exact absurd hsuffix.2 (by decide)
  have hlong : cutWord ("_app".toList ++ ['/']) (start ++ "_app".toList ++ ['/', '\n']) =
      start ++ ['\n'] :=
    cutWord_of (by rw [List.append_assoc, List.append_assoc, List.append_assoc]; rfl) hlone
  have hshort : cutWord "_app".toList (start ++ "_app".toList) = start ++ [] :=
    cutWord_of (List.append_nil _).symm hplain
  rw [dropApp_eq, hlone, if_pos (List.suffix_append _ _), hlong, dropApp_eq, hplain,
    if_neg hfolder, if_pos (List.suffix_append _ _), hshort, List.append_nil]

theorem eq_break_of_pathChars {t : List Char} {rest : List (List Char)}
    (h : pathChars (t :: rest) = ['\n']) : rest = [] ∧ t = ['\n'] := by
  by_cases hrest : rest = []
  · rw [hrest, pathChars_singleton] at h
    exact ⟨hrest, h⟩
  · have hslash : '/' ∈ pathChars (t :: rest) := by
      rw [pathChars_cons t hrest]
      simp
    rw [h] at hslash
    exact absurd hslash (by decide)

theorem dropApp_path {segments : List (List Char)} (h : ∀ s ∈ segments, s ≠ []) :
    dropApp (pathChars segments) = pathChars (cutApp segments) := by
  induction segments with
  | nil => rfl
  | cons s rest ih =>
    obtain ⟨hs, hrest⟩ := List.forall_mem_cons.mp h
    cases rest with
    | nil => rw [cutApp, pathChars_singleton, pathChars_singleton]
    | cons t rest =>
      have hne : pathChars (t :: rest) ≠ [] := by
        obtain ⟨c, t, rfl⟩ := List.exists_cons_of_ne_nil (hrest t List.mem_cons_self)
        rw [pathChars_cons_cons]
        exact List.cons_ne_nil _ _
      rw [cutApp, pathChars_cons s (List.cons_ne_nil t rest)]
      split
      · next hlone =>
        obtain ⟨rfl, rfl, happ⟩ := hlone
        rw [pathChars_singleton, pathChars_singleton, dropApp_lone happ]
      · next hlone =>
        have hmiss : pathChars (t :: rest) = ['\n'] → ¬"_app".toList <:+ s := fun hbreak happ =>
          hlone ⟨(eq_break_of_pathChars hbreak).1, (eq_break_of_pathChars hbreak).2, happ⟩
        rw [dropApp_slash hne hmiss, ih hrest,
          pathChars_cons s (cutApp_ne_nil (List.cons_ne_nil _ _))]

/-! ## All rules -/

/-- The segments before the index and `_app` are looked at. -/
def foldedSegments (segments : List (List Char)) : List (List Char) :=
  withoutLead "home".toList (withoutGroup (withoutLead "routes".toList (withoutFolder segments)))

/-- The segments that the address of a path has. -/
def shownSegments (segments : List (List Char)) : List (List Char) :=
  cutApp (withIndex (foldedSegments segments))

/-- Some segments are left out, and never the last one. -/
structure Shortened (segments kept : List (List Char)) : Prop where
  sublist : kept.Sublist segments
  last : kept.getLast? = segments.getLast?

section

variable {s : List Char} {segments kept others : List (List Char)}

theorem Shortened.refl (segments : List (List Char)) : Shortened segments segments :=
  ⟨List.Sublist.refl segments, rfl⟩

theorem Shortened.trans (h : Shortened segments kept) (h' : Shortened kept others) :
    Shortened segments others :=
  ⟨h'.sublist.trans h.sublist, h'.last.trans h.last⟩

theorem Shortened.ne_nil (h : Shortened segments kept) (hne : segments ≠ []) : kept ≠ [] := by
  intro hnil
  have hlast := h.last
  rw [hnil, List.getLast?_nil, eq_comm, List.getLast?_eq_none_iff] at hlast
  exact hne hlast

theorem shortened_tail (s : List Char) {rest : List (List Char)} (h : rest ≠ []) :
    Shortened (s :: rest) rest := by
  obtain ⟨t, rest, rfl⟩ := List.exists_cons_of_ne_nil h
  exact ⟨List.sublist_cons_self s _, List.getLast?_cons_cons.symm⟩

theorem Shortened.cons (s : List Char) (h : Shortened segments kept) :
    Shortened (s :: segments) (s :: kept) := by
  refine ⟨h.sublist.cons_cons s, ?_⟩
  rw [List.getLast?_cons, List.getLast?_cons, h.last]

theorem shortened_withoutLead (name : List Char) (segments : List (List Char)) :
    Shortened segments (withoutLead name segments) := by
  cases segments with
  | nil => exact Shortened.refl _
  | cons s rest =>
    rw [withoutLead]
    split
    · next h => exact shortened_tail s h.2
    · exact Shortened.refl _

theorem shortened_withoutFolder (segments : List (List Char)) :
    Shortened segments (withoutFolder segments) := by
  induction segments with
  | nil => exact Shortened.refl _
  | cons s rest ih =>
    cases rest with
    | nil => exact Shortened.refl _
    | cons t rest =>
      rw [withoutFolder]
      split
      · next h => exact (shortened_tail t h.2).cons s
      · exact ih.cons s

/-- The segments behind a group, whatever the first one is. -/
theorem shortened_behindGroup {rest after : List (List Char)} (first : List Char)
    (h : behindGroup (s :: rest) = some after) : Shortened (first :: rest) after := by
  induction rest generalizing s first with
  | nil =>
    rw [behindGroup] at h
    split_ifs at h with hclose hfolder
    · exact absurd rfl hfolder.2.2
    · cases h
  | cons t rest ih =>
    have htail := shortened_tail first (List.cons_ne_nil t rest)
    rw [behindGroup] at h
    split_ifs at h with hclose hfolder
    · obtain rfl := Option.some.inj h
      exact htail.trans (shortened_tail t hfolder.2.2)
    · exact htail.trans (ih t h)

theorem shortened_withoutGroup (segments : List (List Char)) :
    Shortened segments (withoutGroup segments) := by
  unfold withoutGroup
  split
  · next s rest =>
    split
    · exact Shortened.refl _
    · cases h : behindGroup (s :: rest) with
      | none => exact Shortened.refl _
      | some after => exact shortened_behindGroup ('(' :: s) h
  · exact Shortened.refl _

/-- **The folders that do not show** are whole segments, and the last segment is never one. -/
theorem shortened_foldedSegments (segments : List (List Char)) :
    Shortened segments (foldedSegments segments) :=
  (((shortened_withoutFolder segments).trans (shortened_withoutLead _ _)).trans
    (shortened_withoutGroup _)).trans (shortened_withoutLead _ _)

theorem Shortened.slashless (h : Shortened segments kept) (hsegments : Slashless segments) :
    Slashless kept :=
  fun s hs => hsegments s (h.sublist.subset hs)

theorem not_mem_beforeFinalBreak {c : Char} {cs : List Char} (h : c ∉ cs) :
    c ∉ beforeFinalBreak cs := by
  rcases beforeFinalBreak_cases cs with heq | heq
  · rwa [heq]
  · exact fun hmem => h (heq ▸ List.mem_append_left _ hmem)

theorem not_mem_cutWord {c : Char} {cs : List Char} (word : List Char) (h : c ∉ cs) :
    c ∉ cutWord word cs := by
  rw [cutWord, List.mem_append]
  rintro (hmem | hmem)
  · exact not_mem_beforeFinalBreak h (List.mem_of_mem_take hmem)
  · exact h (List.mem_of_mem_drop hmem)

theorem not_mem_dropApp {c : Char} {cs : List Char} (h : c ∉ cs) : c ∉ dropApp cs := by
  rw [dropApp_eq]
  split
  · exact not_mem_cutWord _ h
  · split
    · exact not_mem_cutWord _ h
    · exact h

theorem slashless_withIndex (h : Slashless segments) : Slashless (withIndex segments) := by
  rcases segments with _ | ⟨s, _ | ⟨t, rest⟩⟩
  · exact h
  · have hs := (slashless_cons.mp h).1
    refine slashless_cons.mpr ⟨?_, List.forall_mem_nil _⟩
    rw [replaceWhole]
    split
    · rw [List.mem_append]
      exact not_or.mpr ⟨by decide, fun hmem => hs (List.mem_of_mem_drop hmem)⟩
    · exact hs
  · exact h

theorem slashless_cutApp (h : Slashless segments) : Slashless (cutApp segments) := by
  induction segments with
  | nil => exact h
  | cons s rest ih =>
    obtain ⟨hs, hrest⟩ := slashless_cons.mp h
    cases rest with
    | nil => exact slashless_cons.mpr ⟨not_mem_dropApp hs, List.forall_mem_nil _⟩
    | cons t rest =>
      rw [cutApp]
      split
      · refine slashless_cons.mpr ⟨?_, List.forall_mem_nil _⟩
        rw [List.mem_append]
        exact not_or.mpr ⟨not_mem_dropApp hs, (slashless_cons.mp hrest).1⟩
      · exact slashless_cons.mpr ⟨hs, ih hrest⟩

theorem slashless_shownSegments (h : Slashless segments) : Slashless (shownSegments segments) :=
  slashless_cutApp (slashless_withIndex ((shortened_foldedSegments segments).slashless h))

theorem withIndex_ne_nil (h : segments ≠ []) : withIndex segments ≠ [] := by
  rcases segments with _ | ⟨s, _ | ⟨t, rest⟩⟩
  · exact h
  · exact List.cons_ne_nil _ _
  · exact List.cons_ne_nil _ _

theorem shownSegments_ne_nil (h : segments ≠ []) : shownSegments segments ≠ [] :=
  cutApp_ne_nil (withIndex_ne_nil ((shortened_foldedSegments segments).ne_nil h))

theorem withIndex_full (h : ∀ s ∈ segments, s ≠ []) : ∀ s ∈ withIndex segments, s ≠ [] := by
  rcases segments with _ | ⟨s, _ | ⟨t, rest⟩⟩
  · exact h
  · intro t ht
    rw [withIndex, List.mem_singleton] at ht
    rw [ht, replaceWhole]
    split
    · exact List.append_ne_nil_of_left_ne_nil (by decide) _
    · exact h s List.mem_cons_self
  · exact h

theorem withIndex_of_plain (h : ∀ last ∈ segments.getLast?, last.getLast? ≠ some '\n') :
    withIndex segments = segments ∨ withIndex segments = ["index".toList] := by
  rcases segments with _ | ⟨s, _ | ⟨t, rest⟩⟩
  · exact .inl rfl
  · have hplain : beforeFinalBreak s = s := if_neg (h s rfl)
    rw [withIndex, replaceWhole, hplain]
    split
    · next hhome =>
      rw [beq_iff_eq.mp hhome]
      exact .inr (by decide)
    · exact .inl rfl
  · exact .inl rfl

/-- The last rule leaves segments as they are if the last one is no line feed and does not end in
`_app`. -/
theorem cutApp_of_plain
    (h : ∀ last ∈ segments.getLast?,
      last.getLast? ≠ some '\n' ∧ ¬"_app".toList <:+ last ∧ '/' ∉ last) :
    cutApp segments = segments := by
  induction segments with
  | nil => rfl
  | cons s rest ih =>
    cases rest with
    | nil =>
      obtain ⟨hbreak, happ, hslash⟩ := h s rfl
      have hplain : beforeFinalBreak s = s := if_neg hbreak
      have hfolder : ¬"_app".toList ++ ['/'] <:+ s := fun hsuffix =>
        hslash (hsuffix.subset (by simp))
      rw [cutApp, dropApp_eq, hplain, if_neg hfolder, if_neg happ]
    | cons t rest =>
      rw [List.getLast?_cons_cons] at h
      have hmiss : ¬(rest = [] ∧ t = ['\n'] ∧ "_app".toList <:+ s) := by
        rintro ⟨rfl, rfl, -⟩
        exact (h _ rfl).1 rfl
      rw [cutApp, if_neg hmiss, ih h]

/-- **The address of a path**, segment by segment. -/
theorem addressOf_path (h : Slashless segments) (hfull : ∀ s ∈ segments, s ≠ []) :
    addressOf (String.ofList (pathChars segments)) =
      String.ofList (pathChars (shownSegments segments)) := by
  have hfolder : Slashless (withoutFolder segments) :=
    (shortened_withoutFolder segments).slashless h
  have hlead : Slashless (withoutLead "routes".toList (withoutFolder segments)) :=
    (shortened_withoutLead _ _).slashless hfolder
  have hgroup := (shortened_withoutGroup _).slashless hlead
  have hkept : ∀ s ∈ foldedSegments segments, s ≠ [] := fun s hs =>
    hfull s ((shortened_foldedSegments segments).sublist.subset hs)
  change String.ofList (dropApp (replaceWhole "home".toList "index".toList
    (dropStart ("home".toList ++ ['/']) (dropGroup (dropStart ("routes".toList ++ ['/'])
      (replaceFirst "/routes/".toList ['/'] (String.ofList (pathChars segments)).toList)))))) = _
  have htext : (String.ofList (pathChars segments)).toList = pathChars segments :=
    String.toList_ofList
  rw [htext, replaceFirst_path h]
  rw [dropStart_path (by decide) hfolder, dropGroup_path hlead, dropStart_path (by decide) hgroup,
    replaceWhole_path]
  exact congrArg String.ofList (dropApp_path (withIndex_full hkept))

/-- **All shown segments but the last** are segments of the path. -/
theorem mem_of_mem_dropLast_shown (h : s ∈ (shownSegments segments).dropLast) : s ∈ segments := by
  have hcut : ∀ l : List (List Char), s ∈ (cutApp l).dropLast → s ∈ l := by
    intro l
    induction l with
    | nil => exact id
    | cons t rest ih =>
      cases rest with
      | nil => exact fun hmem => nomatch hmem
      | cons u rest =>
        rw [cutApp]
        split
        · exact fun hmem => nomatch hmem
        · rw [List.dropLast_cons_of_ne_nil (cutApp_ne_nil (List.cons_ne_nil u rest)), List.mem_cons,
            List.mem_cons]
          exact Or.imp_right ih
  refine (shortened_foldedSegments segments).sublist.subset ?_
  rw [shownSegments] at h
  rcases hkept : foldedSegments segments with _ | ⟨t, _ | ⟨u, rest⟩⟩
  · rw [hkept] at h
    cases h
  · rw [hkept] at h
    cases h
  · rw [hkept] at h
    exact hcut _ h

end

end Trellis.Output
