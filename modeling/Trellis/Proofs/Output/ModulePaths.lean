import Mathlib.Data.Option.Basic
import Trellis.Proofs.Output.Segments

/-!
# The paths of page modules

The module of a page goes below `routes`. A good path names folders and a file, none of them empty
or a dot, and a page that asks for no address keeps the names of its place whole.

* `groups_show`: a group at the start of a path shows in the address, and so in the output, where
  the folder `routes` stands behind it once. It is taken off only if this folder stands there twice.
* `IsModulePath` says that a path is good, and by which names.
* `isModulePath_iff`: which addresses give a good path.
* `pagePath_wellPlaced`: the path of a page is good exactly if no name of the asked address is a
  dot, or, without one, if no shown segment is a dot and the last one is whole.
* `keepsNames_of_plain`: this is so at every place that has ordinary names.
-/

namespace Trellis.Output

open Trellis.Text
open Trellis.Project

/-! ## Groups -/

section

variable {s g : List Char} {rest segments names : List (List Char)}

theorem withoutFolder_of_free (h : "routes".toList ∉ segments) :
    withoutFolder segments = segments := by
  induction segments with
  | nil => rfl
  | cons s rest ih =>
    cases rest with
    | nil => rfl
    | cons t rest =>
      have hrest : "routes".toList ∉ t :: rest := fun hmem => h (List.mem_cons_of_mem s hmem)
      have ht : t ≠ "routes".toList := fun heq => hrest (heq ▸ List.mem_cons_self)
      rw [withoutFolder, if_neg (fun hall => ht hall.1), ih hrest]

theorem withoutLead_of_ne {name : List Char} (h : s ≠ name) :
    withoutLead name (s :: rest) = s :: rest := by
  rw [withoutLead, if_neg (fun hall => h hall.1)]

theorem withoutLead_of_free {name : List Char} (h : name ∉ segments) :
    withoutLead name segments = segments := by
  cases segments with
  | nil => rfl
  | cons s rest => exact withoutLead_of_ne fun heq => h (heq ▸ List.mem_cons_self)

theorem behindGroup_of_free (h : "routes".toList ∉ rest) : behindGroup (s :: rest) = none := by
  induction rest generalizing s with
  | nil =>
    rw [behindGroup]
    split_ifs with hclose hfolder
    · exact absurd rfl hfolder.2.2
    · rfl
    · rfl
  | cons t rest ih =>
    have ht : t ≠ "routes".toList := fun heq => h (heq ▸ List.mem_cons_self)
    rw [behindGroup]
    split_ifs with hclose hfolder
    · exact absurd (Option.some.inj hfolder.2.1) ht
    · rfl
    · exact ih fun hmem => h (List.mem_cons_of_mem t hmem)

theorem withoutGroup_of_free (h : "routes".toList ∉ segments) :
    withoutGroup segments = segments := by
  unfold withoutGroup
  split
  · next s rest =>
    rw [behindGroup_of_free fun hmem => h (List.mem_cons_of_mem _ hmem), Option.getD_none, ite_self]
  · rfl

/-- Without a folder `routes` only the home folder is left out. -/
theorem foldedSegments_of_free (h : "routes".toList ∉ segments) :
    foldedSegments segments = withoutLead "home".toList segments := by
  rw [foldedSegments, withoutFolder_of_free h, withoutLead_of_free h, withoutGroup_of_free h]

/-- A group in parentheses, as a segment. -/
def groupSegment (g : List Char) : List Char := '(' :: (g ++ [')'])

/-- The name of a group: it has no closing parenthesis and no slash in it. -/
structure IsGroupName (g : List Char) : Prop where
  nonempty : g ≠ []
  open_ : ')' ∉ g
  slashless : '/' ∉ g

theorem groupSegment_ne {name : List Char} (h : name.head? ≠ some '(') (g : List Char) :
    groupSegment g ≠ name := by
  rintro rfl
  exact h rfl

theorem not_suffix_groupSegment (g : List Char) : ¬"_app".toList <:+ groupSegment g := by
  intro h
  have hlast : groupSegment g = ('(' :: g) ++ [')'] := rfl
  have hword : "_app".toList = "_ap".toList ++ ['p'] := rfl
  have hlength : ['p'].length = [')'].length := rfl
  rw [hlast, hword, List.suffix_append_inj_of_length_eq hlength] at h
  exact absurd h.2 (by decide)

theorem IsGroupName.head_ne (hg : IsGroupName g) : (g ++ [')']).head? ≠ some ')' := by
  obtain ⟨c, g, rfl⟩ := List.exists_cons_of_ne_nil hg.nonempty
  intro h
  exact hg.open_ (Option.some.inj h ▸ List.mem_cons_self)

theorem IsGroupName.close (hg : IsGroupName g) : (g ++ [')']).dropWhile (· != ')') = [')'] := by
  exact dropWhile_run (forall_bne hg.open_) (by simp)

theorem IsGroupName.slashless_segment (hg : IsGroupName g) : '/' ∉ groupSegment g := by
  simp [groupSegment, hg.slashless]

theorem cutApp_groupSegment (g : List Char) (hnames : names ≠ []) :
    cutApp (groupSegment g :: names) = groupSegment g :: cutApp names := by
  obtain ⟨t, rest, rfl⟩ := List.exists_cons_of_ne_nil hnames
  rw [cutApp, if_neg (fun hall => not_suffix_groupSegment g hall.2.2)]

/-- **Behind a group, one folder `routes` does not show**, but the group does. -/
theorem shown_group (g : List Char) (hnames : names ≠ []) (h : "routes".toList ∉ names) :
    shownSegments (groupSegment g :: "routes".toList :: names) =
      groupSegment g :: cutApp names := by
  have hlead : withoutFolder (groupSegment g :: "routes".toList :: names) =
      groupSegment g :: names := by
    rw [withoutFolder, if_pos ⟨rfl, hnames⟩]
  have hgroup : withoutGroup (groupSegment g :: names) = groupSegment g :: names := by
    rw [groupSegment, withoutGroup, behindGroup_of_free h, Option.getD_none, ite_self]
  have hindex : withIndex (groupSegment g :: names) = groupSegment g :: names := by
    obtain ⟨t, rest, rfl⟩ := List.exists_cons_of_ne_nil hnames
    rfl
  rw [shownSegments, foldedSegments, hlead, withoutLead_of_ne (groupSegment_ne (by decide) g),
    hgroup, withoutLead_of_ne (groupSegment_ne (by decide) g), hindex, cutApp_groupSegment g hnames]

/-- **Behind a group, two folders `routes` do not show**, and the group does not either. -/
theorem shown_group_twice (hg : IsGroupName g) (hnames : names ≠ [])
    (h : "routes".toList ∉ names) :
    shownSegments (groupSegment g :: "routes".toList :: "routes".toList :: names) =
      shownSegments names := by
  have hlead : withoutFolder (groupSegment g :: "routes".toList :: "routes".toList :: names) =
      groupSegment g :: "routes".toList :: names := by
    rw [withoutFolder, if_pos ⟨rfl, List.cons_ne_nil _ _⟩]
  have hgroup : withoutGroup (groupSegment g :: "routes".toList :: names) = names := by
    rw [groupSegment, withoutGroup, if_neg hg.head_ne, behindGroup, if_pos (by simp),
      if_pos ⟨hg.close, rfl, hnames⟩]
    rfl
  rw [shownSegments, shownSegments, foldedSegments_of_free h, foldedSegments, hlead,
    withoutLead_of_ne (groupSegment_ne (by decide) g), hgroup]

theorem length_cutApp_withIndex (segments : List (List Char)) :
    (cutApp (withIndex segments)).length = (cutApp segments).length := by
  rcases segments with _ | ⟨s, _ | ⟨t, rest⟩⟩ <;> rfl

/-- A path without a folder `routes` shows no more segments than are left behind a group. -/
theorem length_shownSegments_le (h : "routes".toList ∉ names) :
    (shownSegments names).length ≤ (cutApp names).length := by
  rw [shownSegments, foldedSegments_of_free h, length_cutApp_withIndex]
  cases names with
  | nil => exact Nat.le_refl _
  | cons s rest =>
    rw [withoutLead]
    split
    · next hhome =>
      obtain ⟨t, rest, rfl⟩ := List.exists_cons_of_ne_nil hhome.2
      have hword : ¬"_app".toList <:+ s := by
        rw [hhome.1]
        decide
      rw [cutApp, if_neg (fun hall => hword hall.2.2), List.length_cons]
      exact Nat.le_succ _
    · exact Nat.le_refl _

end

/-! ## Names -/

/-- A segment of a path. -/
structure IsSegment (s : String) : Prop where
  nonempty : s ≠ ""
  slashless : '/' ∉ s.toList

/-- The segments of a path as lists of characters. -/
theorem slashless_names {names : List String} (h : ∀ s ∈ names, '/' ∉ s.toList) :
    Slashless (names.map String.toList) :=
  List.forall_mem_map.mpr h

theorem full_names {names : List String} (h : ∀ s ∈ names, s ≠ "") :
    ∀ s ∈ names.map String.toList, s ≠ [] :=
  List.forall_mem_map.mpr fun s hs hnil => h s hs (String.toList_eq_nil_iff.mp hnil)

theorem free_names {names : List String} {name : String} (h : name ∉ names) :
    name.toList ∉ names.map String.toList := by
  rintro hmem
  obtain ⟨s, hs, heq⟩ := List.mem_map.mp hmem
  exact h (String.toList_inj.mp heq ▸ hs)

theorem toList_path (names : List String) :
    ("/".intercalate names).toList = pathChars (names.map String.toList) :=
  String.toList_intercalate

/-- A path is what its characters are. -/
theorem eq_ofList_path {s : String} {segments : List (List Char)}
    (h : s.toList = pathChars segments) : s = String.ofList (pathChars segments) := by
  rw [← h, String.ofList_toList]

section

variable {g : String} {names : List String}

theorem intercalate_routes (hne : names ≠ []) :
    "/".intercalate ("routes" :: names) = "routes/" ++ "/".intercalate names :=
  String.intercalate_cons_of_ne_nil hne

theorem forall_isSegment_routes (h : ∀ s ∈ names, IsSegment s) :
    ∀ s ∈ "routes" :: names, IsSegment s :=
  List.forall_mem_cons.mpr ⟨⟨by decide, by decide⟩, h⟩

/-- The address of a path has the segments that its names show. -/
theorem addressOf_names (h : ∀ s ∈ names, IsSegment s) :
    addressOf ("/".intercalate names) =
      String.ofList (pathChars (shownSegments (names.map String.toList))) := by
  rw [eq_ofList_path (toList_path names),
    addressOf_path (slashless_names fun s hs => (h s hs).slashless)
      (full_names fun s hs => (h s hs).nonempty)]

/-- The address of a path behind a group. -/
theorem addressOf_group (hg : IsGroupName g.toList) (hne : names ≠ [])
    (h : ∀ s ∈ names, IsSegment s) :
    addressOf ("(" ++ g ++ ")/" ++ "/".intercalate names) =
      String.ofList (pathChars
        (shownSegments (groupSegment g.toList :: names.map String.toList))) := by
  have hpath : "(" ++ g ++ ")/" ++ "/".intercalate names =
      "/".intercalate (("(" ++ g ++ ")") :: names) := by
    rw [String.intercalate_cons_of_ne_nil hne, ← String.toList_inj]
    simp
  have hgroup : ("(" ++ g ++ ")").toList = groupSegment g.toList := by simp [groupSegment]
  have hsegment : IsSegment ("(" ++ g ++ ")") :=
    ⟨fun hnil => by simpa using congrArg String.toList hnil, hgroup ▸ hg.slashless_segment⟩
  rw [hpath, addressOf_names (List.forall_mem_cons.mpr ⟨hsegment, h⟩), List.map_cons, hgroup]

/-- With one folder `routes` behind it the group shows. -/
theorem addressOf_group_once (hg : IsGroupName g.toList) (hne : names ≠ [])
    (h : ∀ s ∈ names, IsSegment s) (hfree : "routes" ∉ names) :
    addressOf ("(" ++ g ++ ")/routes/" ++ "/".intercalate names) =
      String.ofList (pathChars (groupSegment g.toList :: cutApp (names.map String.toList))) := by
  have hpath : "(" ++ g ++ ")/routes/" ++ "/".intercalate names =
      "(" ++ g ++ ")/" ++ "/".intercalate ("routes" :: names) := by
    rw [intercalate_routes hne, ← String.toList_inj]
    simp
  rw [hpath, addressOf_group hg (List.cons_ne_nil _ _) (forall_isSegment_routes h), List.map_cons,
    shown_group g.toList (by simpa using hne) (free_names hfree)]

/-- With two of them the rest of the path is all that shows. -/
theorem addressOf_group_twice (hg : IsGroupName g.toList) (hne : names ≠ [])
    (h : ∀ s ∈ names, IsSegment s) (hfree : "routes" ∉ names) :
    addressOf ("(" ++ g ++ ")/routes/routes/" ++ "/".intercalate names) =
      addressOf ("/".intercalate names) := by
  have hpath : "(" ++ g ++ ")/routes/routes/" ++ "/".intercalate names =
      "(" ++ g ++ ")/" ++ "/".intercalate ("routes" :: "routes" :: names) := by
    rw [intercalate_routes (List.cons_ne_nil _ _), intercalate_routes hne, ← String.toList_inj]
    simp
  rw [hpath, addressOf_group hg (List.cons_ne_nil _ _)
      (forall_isSegment_routes (forall_isSegment_routes h)), List.map_cons, List.map_cons,
    shown_group_twice hg (by simpa using hne) (free_names hfree), addressOf_names h]

/-- An address that starts with a group gives a path that does. -/
theorem exists_pagePath_group (hg : IsGroupName g.toList) {relativePath rest : String}
    (h : addressOf relativePath = "(" ++ g ++ ")/" ++ rest) (filename : String) :
    ∃ after, pagePath relativePath filename = "routes/(" ++ g ++ ")/" ++ after := by
  obtain ⟨tail, htail⟩ : ∃ tail, pageAddress relativePath filename = "(" ++ g ++ ")/" ++ tail := by
    unfold pageAddress
    rw [h]
    cases dynamicSegment? filename with
    | some segment => exact ⟨rest ++ "/[" ++ segment ++ "]", by simp only [String.append_assoc]⟩
    | none => exact ⟨rest, if_neg fun hnil => by simpa using congrArg String.toList hnil⟩
  have hfront : collapseSlashes ("/(" ++ g ++ ")") = "/(" ++ g ++ ")" := by
    have hchars : ("/(" ++ g ++ ")").toList = '/' :: groupSegment g.toList := by
      simp [groupSegment]
    rw [collapseSlashes, substitute, hchars, collapse_cons, if_neg (by simp),
      collapse_chars_slashless hg.slashless_segment, ← hchars, String.ofList_toList]
  have hlast : ("/(" ++ g ++ ")").toList.getLast? ≠ some '/' := by
    rw [String.toList_append]
    change (_ ++ [')']).getLast? ≠ _
    rw [List.getLast?_concat]
    decide
  obtain ⟨after, hafter⟩ := exists_collapse tail
  have hsplit : "/" ++ ("(" ++ g ++ ")/" ++ tail) = "/(" ++ g ++ ")" ++ ("/" ++ tail) := by
    rw [← String.toList_inj]
    simp
  refine ⟨after ++ ".tsx", ?_⟩
  rw [pagePath_eq, shownAddress, htail, hsplit, collapseSlashes_append (.inl hlast), hfront,
    hafter, ← String.toList_inj]
  simp

/-- **A group shows in the address of a page**, and so in the path of its module, where the folder
`routes` stands behind it once. Without the group the address is another one. It does not show if
the folder stands there twice. -/
theorem groups_show (hg : IsGroupName g.toList) (hne : names ≠ [])
    (hnames : ∀ s ∈ names, IsSegment s) (hfree : "routes" ∉ names) (filename : String) :
    addressOf ("(" ++ g ++ ")/routes/" ++ "/".intercalate names) =
        "(" ++ g ++ ")/" ++ String.ofList (dropApp ("/".intercalate names).toList) ∧
      addressOf ("(" ++ g ++ ")/routes/" ++ "/".intercalate names) ≠
        addressOf ("/".intercalate names) ∧
      (∃ after, pagePath ("(" ++ g ++ ")/routes/" ++ "/".intercalate names) filename =
        "routes/(" ++ g ++ ")/" ++ after) ∧
      addressOf ("(" ++ g ++ ")/routes/routes/" ++ "/".intercalate names) =
        addressOf ("/".intercalate names) := by
  have hsegments : names.map String.toList ≠ [] := by simpa using hne
  have honce := addressOf_group_once hg hne hnames hfree
  have hshown : addressOf ("(" ++ g ++ ")/routes/" ++ "/".intercalate names) =
      "(" ++ g ++ ")/" ++ String.ofList (dropApp ("/".intercalate names).toList) := by
    rw [honce, toList_path, dropApp_path (full_names fun s hs => (hnames s hs).nonempty),
      pathChars_cons _ (cutApp_ne_nil hsegments), ← String.toList_inj]
    simp [groupSegment]
  refine ⟨hshown, ?_, exists_pagePath_group hg hshown filename,
    addressOf_group_twice hg hne hnames hfree⟩
  rw [honce, addressOf_names hnames]
  -- The address with the group has one segment more.
  intro heq
  have hslashless := slashless_names fun s hs => (hnames s hs).slashless
  have hgroup := slashless_cons.mpr ⟨hg.slashless_segment, slashless_cutApp hslashless⟩
  have hlists := (pathChars_inj hgroup (slashless_shownSegments hslashless)
    (List.cons_ne_nil _ _) (shownSegments_ne_nil hsegments)).mp (String.ofList_injective heq)
  have hle := length_shownSegments_le (free_names hfree)
  rw [← hlists, List.length_cons] at hle
  omega

theorem groups_show_shop :
    IsGroupName "shop".toList ∧ (∀ s ∈ ["about"], IsSegment s) ∧ "routes" ∉ ["about"] ∧
      addressOf ("(" ++ "shop" ++ ")/routes/" ++ "/".intercalate ["about"]) =
        "(" ++ "shop" ++ ")/" ++ String.ofList (dropApp ("/".intercalate ["about"]).toList) :=
  have hg : IsGroupName "shop".toList := ⟨by decide, by decide, by decide⟩
  have hnames : ∀ s ∈ ["about"], IsSegment s :=
    List.forall_mem_singleton.mpr ⟨by decide, by decide⟩
  have hfree : "routes" ∉ ["about"] := by decide
  ⟨hg, hnames, hfree, (groups_show hg (List.cons_ne_nil _ _) hnames hfree "mod.ts").1⟩

/-- A group is not left out. -/
theorem shown_shop :
    addressOf "(shop)/routes/about" = "(shop)/about" ∧
      addressOf "(shop)/routes/about" ≠ addressOf "about" := by
  decide +kernel

end

/-! ## Good paths -/

/-- A name that a folder or a file can have. -/
structure IsFileName (s : String) : Prop where
  nonempty : s ≠ ""
  not_dot : s ≠ "."
  slashless : '/' ∉ s.toList

/-- The path is that of a module below `routes`, with these names from the first folder to the
file. -/
structure IsModulePath (names : List String) (path : String) : Prop where
  nonempty : names ≠ []
  fileNames : ∀ s ∈ names, IsFileName s
  eq : path = "routes/" ++ "/".intercalate names ++ ".tsx"

section

variable {s : List Char} {rest segments : List (List Char)}

/-- The segments that are left where slashes are made single: no empty ones but the last. -/
def squeezed (segments : List (List Char)) : List (List Char) :=
  segments.filter (· ≠ []) ++ if segments.getLast? = some [] then [[]] else []

theorem squeezed_cons (s : List Char) (h : rest ≠ []) :
    squeezed (s :: rest) = if s = [] then squeezed rest else s :: squeezed rest := by
  have hlast : (s :: rest).getLast? = rest.getLast? := by
    obtain ⟨t, rest, rfl⟩ := List.exists_cons_of_ne_nil h
    rw [List.getLast?_cons_cons]
  rw [squeezed, squeezed, hlast]
  by_cases hs : s = []
  · rw [if_pos hs, List.filter_cons_of_neg (by simpa using hs)]
  · rw [if_neg hs, List.filter_cons_of_pos (by simpa using hs), List.cons_append]

theorem squeezed_of_last (h : segments.getLast? ≠ some []) :
    squeezed segments = segments.filter (· ≠ []) := by
  rw [squeezed, if_neg h, List.append_nil]

theorem squeezed_ne_nil (h : segments ≠ []) : squeezed segments ≠ [] := by
  intro hnil
  obtain ⟨hfilter, hlast⟩ := List.append_eq_nil_iff.mp hnil
  obtain ⟨front, s, rfl⟩ := (List.eq_nil_or_concat segments).resolve_left h
  rw [List.filter_eq_nil_iff] at hfilter
  have hs : s = [] := by simpa using hfilter s (by simp)
  rw [hs, List.concat_eq_append, List.getLast?_concat, if_pos rfl] at hlast
  cases hlast

theorem slashless_squeezed (h : Slashless segments) : Slashless (squeezed segments) := by
  intro s hs
  rw [squeezed, List.mem_append] at hs
  rcases hs with hs | hs
  · exact h s (List.mem_filter.mp hs).1
  · split at hs
    · rw [List.mem_singleton.mp hs]
      exact List.not_mem_nil
    · cases hs

/-- **Single slashes**: the empty segments of a path go. -/
theorem collapse_pathChars (hne : segments ≠ []) (h : Slashless segments) :
    substituteFrom slashRule (some '/') 0 (pathChars segments) = pathChars (squeezed segments) := by
  induction segments with
  | nil => exact absurd rfl hne
  | cons s rest ih =>
    obtain ⟨hs, hrest⟩ := slashless_cons.mp h
    by_cases hnil : rest = []
    · subst hnil
      have hsqueezed : squeezed [s] = [s] := by
        rw [squeezed]
        by_cases hempty : s = [] <;> simp [hempty]
      rw [hsqueezed, pathChars_singleton, collapse_chars_slashless hs]
    · rw [pathChars_cons s hnil, squeezed_cons s hnil, collapse_chars_append,
        collapse_chars_slashless hs, collapse_cons]
      by_cases hempty : s = []
      · subst hempty
        rw [if_pos ⟨rfl, rfl⟩, if_pos rfl, ih hnil hrest]
        rfl
      · have hlast : s.getLast?.or (some '/') ≠ some '/' := by
          obtain ⟨front, c, rfl⟩ := (List.eq_nil_or_concat s).resolve_left hempty
          rw [List.concat_eq_append, List.getLast?_concat]
          intro heq
          obtain rfl : c = '/' := Option.some.inj heq
          exact hs (by simp)
        rw [if_neg (fun hall => hlast hall.1), if_neg hempty,
          pathChars_cons s (squeezed_ne_nil hnil), ih hnil hrest]

/-- The file at an address is found below `routes` by the segments that are left. -/
theorem place_eq (hne : segments ≠ []) (h : Slashless segments) :
    "routes" ++ collapseSlashes ("/" ++ String.ofList (pathChars segments)) ++ ".tsx" =
      "routes/" ++ String.ofList (pathChars (squeezed segments)) ++ ".tsx" := by
  have hchars : ("/" ++ String.ofList (pathChars segments)).toList = '/' :: pathChars segments := by
    rw [String.toList_append]
    exact congrArg ('/' :: ·) String.toList_ofList
  have hcollapsed : collapseSlashes ("/" ++ String.ofList (pathChars segments)) =
      "/" ++ String.ofList (pathChars (squeezed segments)) := by
    rw [collapseSlashes, substitute, hchars, collapse_cons, if_neg (by simp),
      collapse_pathChars hne h, ← List.singleton_append, String.ofList_append]
  rw [hcollapsed, ← String.append_assoc]
  rfl

theorem map_toList_inj {names : List String} :
    names.map String.toList = segments ↔ names = segments.map String.ofList := by
  constructor
  · rintro rfl
    simp
  · rintro rfl
    simp

/-- **The addresses of good paths** have a last segment that is not empty, and no segment that is a
dot. The names are their segments. -/
theorem isModulePath_iff {names : List String} (hne : segments ≠ []) (h : Slashless segments) :
    IsModulePath names
        ("routes" ++ collapseSlashes ("/" ++ String.ofList (pathChars segments)) ++ ".tsx") ↔
      names = (segments.filter (· ≠ [])).map String.ofList ∧
        segments.getLast? ≠ some [] ∧ ['.'] ∉ segments := by
  rw [place_eq hne h]
  have hpath (hnames : names ≠ []) (hfree : ∀ s ∈ names, '/' ∉ s.toList) :
      "routes/" ++ String.ofList (pathChars (squeezed segments)) ++ ".tsx" =
          "routes/" ++ "/".intercalate names ++ ".tsx" ↔
        names = (squeezed segments).map String.ofList := by
    rw [String.append_left_inj, String.append_right_inj, ← map_toList_inj, ← String.toList_inj,
      String.toList_ofList, toList_path,
      pathChars_inj (slashless_squeezed h) (slashless_names hfree) (squeezed_ne_nil hne)
        (by simpa using hnames)]
    exact eq_comm
  constructor
  · rintro ⟨hnames, hfiles, heq⟩
    have hlist := (hpath hnames fun s hs => (hfiles s hs).slashless).mp heq
    have hfile : ∀ s ∈ squeezed segments, IsFileName (String.ofList s) := fun s hs =>
      hfiles _ (hlist ▸ List.mem_map_of_mem hs)
    have hlast : segments.getLast? ≠ some [] := fun hempty =>
      (hfile [] (by simp [squeezed, hempty])).nonempty rfl
    rw [squeezed_of_last hlast] at hlist hfile
    exact ⟨hlist, hlast, fun hdot => (hfile ['.'] (by simp [hdot])).not_dot rfl⟩
  · rintro ⟨rfl, hlast, hdot⟩
    have hsqueezed := squeezed_of_last hlast
    have hnames : (segments.filter (· ≠ [])).map String.ofList ≠ [] := by
      rw [← hsqueezed]
      simpa using squeezed_ne_nil hne
    have hfiles : ∀ s ∈ (segments.filter (· ≠ [])).map String.ofList, IsFileName s := by
      intro s hs
      obtain ⟨t, ht, rfl⟩ := List.mem_map.mp hs
      obtain ⟨hmem, hfull⟩ := List.mem_filter.mp ht
      refine ⟨by simpa using hfull, fun heq => hdot ?_, by simpa using h t hmem⟩
      obtain rfl : t = ['.'] := String.ofList_injective heq
      exact hmem
    exact ⟨hnames, hfiles, (hpath hnames fun s hs => (hfiles s hs).slashless).mpr
      (by rw [hsqueezed])⟩

end

/-! ## Names in brackets -/

/-- A name in brackets, as a segment. -/
def bracketSegment (segment : String) : List Char := '[' :: (segment.toList ++ [']'])

theorem dynamicSegment_slashless {filename segment : String} (hfile : '/' ∉ filename.toList)
    (h : dynamicSegment? filename = some segment) : '/' ∉ bracketSegment segment := by
  unfold dynamicSegment? at h
  split at h
  · next cs hcs =>
    dsimp only at h
    split at h
    · cases h
    · obtain rfl := Option.some.inj h
      have hfree : '/' ∉ '[' :: cs := hcs ▸ not_mem_beforeFinalBreak hfile
      have hname : '/' ∉ cs.takeWhile (· != ']') := fun hmem =>
        hfree (List.mem_cons_of_mem _ ((List.takeWhile_sublist _).subset hmem))
      simp [bracketSegment, hname]
  · cases h

/-- The segments of an address with the name that a file in brackets adds. -/
def locatedSegments (segments : List (List Char)) (filename : String) : List (List Char) :=
  match dynamicSegment? filename with
  | some segment => segments ++ [bracketSegment segment]
  | none => if segments = [[]] then ["index".toList] else segments

section

variable {filename : String} {segments : List (List Char)}

theorem locatedSegments_ne_nil (h : segments ≠ []) (filename : String) :
    locatedSegments segments filename ≠ [] := by
  unfold locatedSegments
  cases dynamicSegment? filename with
  | some segment => simp
  | none =>
    dsimp only
    split
    · exact List.cons_ne_nil _ _
    · exact h

theorem slashless_locatedSegments (hfile : '/' ∉ filename.toList) (h : Slashless segments) :
    Slashless (locatedSegments segments filename) := by
  unfold locatedSegments
  cases hsegment : dynamicSegment? filename with
  | some segment =>
    exact List.forall_mem_append.mpr
      ⟨h, List.forall_mem_singleton.mpr (dynamicSegment_slashless hfile hsegment)⟩
  | none =>
    dsimp only
    split
    · exact List.forall_mem_singleton.mpr (by decide)
    · exact h

/-- A path is empty exactly if its only segment is. -/
theorem pathChars_eq_nil_iff (hne : segments ≠ []) : pathChars segments = [] ↔ segments = [[]] := by
  obtain ⟨s, rest, rfl⟩ := List.exists_cons_of_ne_nil hne
  by_cases hrest : rest = []
  · rw [hrest, pathChars_singleton]
    simp
  · rw [pathChars_cons s hrest]
    simp [hrest]

theorem pathChars_concat (s : List Char) (hne : segments ≠ []) :
    pathChars (segments ++ [s]) = pathChars segments ++ '/' :: s := by
  induction segments with
  | nil => exact absurd rfl hne
  | cons t rest ih =>
    by_cases hrest : rest = []
    · rw [hrest, pathChars_singleton]
      exact (pathChars_cons t (List.cons_ne_nil s [])).trans (by rw [pathChars_singleton])
    · rw [List.cons_append, pathChars_cons t (by simp), pathChars_cons t hrest, ih hrest,
        List.append_assoc, List.cons_append]

theorem located_path (hne : segments ≠ []) (filename : String) :
    located (String.ofList (pathChars segments)) filename =
      String.ofList (pathChars (locatedSegments segments filename)) := by
  unfold located locatedSegments
  cases dynamicSegment? filename with
  | some segment =>
    refine eq_ofList_path ?_
    have htext : (String.ofList (pathChars segments)).toList = pathChars segments :=
      String.toList_ofList
    rw [pathChars_concat _ hne]
    simp [htext, bracketSegment]
  | none =>
    have hempty : String.ofList (pathChars segments) = "" ↔ segments = [[]] := by
      rw [← pathChars_eq_nil_iff hne, ← String.toList_eq_nil_iff, String.toList_ofList]
    dsimp only
    by_cases hroot : segments = [[]]
    · rw [if_pos (hempty.mpr hroot), if_pos hroot]
      rfl
    · rw [if_neg (mt hempty.mp hroot), if_neg hroot]

/-- The path of a page whose address has these segments is good if the last one is not empty, or
something follows it, and none is a dot. -/
theorem isModulePath_located_iff (hfile : '/' ∉ filename.toList) (hne : segments ≠ [])
    (h : Slashless segments) {names : List String} :
    IsModulePath names ("routes" ++ collapseSlashes ("/" ++
        located (String.ofList (pathChars segments)) filename) ++ ".tsx") ↔
      names = ((locatedSegments segments filename).filter (· ≠ [])).map String.ofList ∧
        (locatedSegments segments filename).getLast? ≠ some [] ∧
        ['.'] ∉ locatedSegments segments filename := by
  rw [located_path hne]
  exact isModulePath_iff (locatedSegments_ne_nil hne filename) (slashless_locatedSegments hfile h)

theorem dot_mem_located_iff (segments : List (List Char)) (filename : String) :
    ['.'] ∈ locatedSegments segments filename ↔ ['.'] ∈ segments := by
  unfold locatedSegments
  cases dynamicSegment? filename with
  | some segment => simp [bracketSegment]
  | none =>
    dsimp only
    split
    · next hroot =>
      subst hroot
      decide
    · rfl

theorem last_located_iff (segments : List (List Char)) (filename : String) :
    (locatedSegments segments filename).getLast? ≠ some [] ↔
      (segments.getLast? = some [] → segments = [[]] ∨ dynamicSegment? filename ≠ none) := by
  unfold locatedSegments
  cases dynamicSegment? filename with
  | some segment => simp [bracketSegment]
  | none =>
    dsimp only
    by_cases hroot : segments = [[]]
    · simp [hroot]
    · rw [if_neg hroot]
      simp [hroot]

end

/-! ## Pages at addresses that they ask for -/

theorem mem_splitOn_iff {name address : String} :
    name ∈ splitOn '/' address ↔ name.toList ∈ splitAtEach (· == '/') address.toList := by
  rw [splitOn, List.mem_map]
  constructor
  · rintro ⟨piece, hpiece, rfl⟩
    rwa [String.toList_ofList]
  · intro h
    exact ⟨name.toList, h, String.ofList_toList⟩

/-- **An address that a page asks for** gives a good path exactly if no name in it is a dot. -/
theorem explicit_wellPlaced {filename : String} (hfile : '/' ∉ filename.toList)
    (place address : String) :
    (∃ names, IsModulePath names (pagePath place filename (some address))) ↔
      "." ∉ splitOn '/' address := by
  set trimmed := trimBoth (· == '/') address.toList with htrimmed
  set segments := splitAtEach (· == '/') trimmed with hsegments
  have hne : segments ≠ [] := splitAtEach_ne_nil _ _
  have hfree : Slashless segments := fun s hs hslash => by
    simpa using splitAtEach_free hs '/' hslash
  have haddress : trimSlashes address = String.ofList (pathChars segments) := by
    rw [trimSlashes, pathChars, hsegments, intercalate_splitAtEach]
  have hlast : segments.getLast? = some [] → segments = [[]] := by
    intro hempty
    rcases getLast?_splitAtEach hempty with hnil | ⟨c, hc, hslash⟩
    · rw [hsegments, hnil]
      rfl
    · exfalso
      obtain ⟨hlong, rfl⟩ := List.mem_getLast?_eq_getLast hc
      exact List.rdropWhile_last_not (· == '/') _ hlong hslash
  have hdot : ['.'] ∈ segments ↔ "." ∈ splitOn '/' address := by
    rw [mem_splitOn_iff, hsegments, htrimmed, mem_splitAtEach_trimBoth _ (List.cons_ne_nil _ _)]
    rfl
  have hplace : pagePath place filename (some address) = "routes" ++ collapseSlashes ("/" ++
      located (String.ofList (pathChars segments)) filename) ++ ".tsx" := by
    rw [pagePath_located, ← haddress]
    rfl
  simp only [hplace, isModulePath_located_iff hfile hne hfree, exists_eq_left, last_located_iff,
    dot_mem_located_iff, hdot]
  exact and_iff_right fun hempty => .inl (hlast hempty)

/-! ## Pages at their places -/

/-- A name in the path of a page is one of its place, the index, or the one that the file has in
brackets. -/
def IsWhole (segments : List String) (filename name : String) : Prop :=
  name ∈ segments ∨ name = "index" ∨
    ∃ segment, dynamicSegment? filename = some segment ∧ name = "[" ++ segment ++ "]"

/-- The segments that a place shows. -/
def shownNames (segments : List String) : List (List Char) :=
  shownSegments (segments.map String.toList)

/-- The rules for addresses leave the names of a place whole. Only the last name is in danger. -/
structure KeepsNames (segments : List String) (filename : String) : Prop where
  no_dot : ['.'] ∉ shownNames segments
  last_full : (shownNames segments).getLast? = some [] →
    shownNames segments = [[]] ∨ dynamicSegment? filename ≠ none
  last_whole : ∀ last ∈ (shownNames segments).getLast?, last ≠ [] →
    IsWhole segments filename (String.ofList last)

section

variable {segments : List String} {filename : String}

theorem shownNames_ne_nil (h : segments ≠ []) : shownNames segments ≠ [] :=
  shownSegments_ne_nil (by simpa using h)

/-- All names but the last are those of folders. -/
theorem whole_of_mem_dropLast {s : List Char} (h : s ∈ (shownNames segments).dropLast) :
    IsWhole segments filename (String.ofList s) := by
  obtain ⟨name, hname, rfl⟩ := List.mem_map.mp (mem_of_mem_dropLast_shown h)
  rw [String.ofList_toList]
  exact .inl hname

theorem bracket_whole {segment : String} (h : dynamicSegment? filename = some segment) :
    IsWhole segments filename (String.ofList (bracketSegment segment)) := by
  refine .inr (.inr ⟨segment, h, ?_⟩)
  rw [← String.toList_inj]
  simp [bracketSegment]

/-- The names are whole if the last one shown is. -/
theorem whole_located_iff (hne : segments ≠ []) :
    (∀ s ∈ locatedSegments (shownNames segments) filename, s ≠ [] →
        IsWhole segments filename (String.ofList s)) ↔
      ∀ last ∈ (shownNames segments).getLast?, last ≠ [] →
        IsWhole segments filename (String.ofList last) := by
  obtain ⟨last, hlast⟩ : ∃ last, (shownNames segments).getLast? = some last :=
    Option.ne_none_iff_exists'.mp (by simpa using shownNames_ne_nil hne)
  have hshown := List.dropLast_append_getLast? last hlast
  have hall : (∀ s ∈ shownNames segments, s ≠ [] → IsWhole segments filename (String.ofList s)) ↔
      (last ≠ [] → IsWhole segments filename (String.ofList last)) := by
    conv_lhs => rw [← hshown]
    rw [List.forall_mem_append, List.forall_mem_singleton, and_iff_right]
    exact fun s hs _ => whole_of_mem_dropLast hs
  simp only [hlast, Option.mem_some_iff, forall_eq']
  rw [← hall]
  unfold locatedSegments
  cases hsegment : dynamicSegment? filename with
  | some segment =>
    dsimp only
    rw [List.forall_mem_append, List.forall_mem_singleton, and_iff_left]
    exact fun _ => bracket_whole hsegment
  | none =>
    dsimp only
    split
    · next hroot =>
      rw [hroot, List.forall_mem_singleton, List.forall_mem_singleton]
      exact iff_of_true (fun _ => .inr (.inl rfl)) fun hempty => absurd rfl hempty
    · rfl

/-- **A page at its place** has a good path of whole names exactly if the rules leave them whole. -/
theorem place_wellPlaced (hfile : '/' ∉ filename.toList) (hne : segments ≠ [])
    (hsegments : ∀ s ∈ segments, IsSegment s) :
    (∃ names, IsModulePath names (pagePath ("/".intercalate segments) filename) ∧
        ∀ s ∈ names, IsWhole segments filename s) ↔
      KeepsNames segments filename := by
  have hfree : Slashless (segments.map String.toList) :=
    slashless_names fun s hs => (hsegments s hs).slashless
  have haddress : addressOf ("/".intercalate segments) =
      String.ofList (pathChars (shownNames segments)) := addressOf_names hsegments
  have hplace : pagePath ("/".intercalate segments) filename = "routes" ++ collapseSlashes ("/" ++
      located (String.ofList (pathChars (shownNames segments))) filename) ++ ".tsx" := by
    rw [pagePath_located, ← haddress]
    rfl
  have hwhole : (∀ s ∈ ((locatedSegments (shownNames segments) filename).filter
        (· ≠ [])).map String.ofList, IsWhole segments filename s) ↔
      ∀ s ∈ locatedSegments (shownNames segments) filename, s ≠ [] →
        IsWhole segments filename (String.ofList s) := by
    simp only [List.forall_mem_map, List.mem_filter, decide_eq_true_eq, and_imp]
  simp only [hplace, isModulePath_located_iff hfile (shownNames_ne_nil hne)
    (slashless_shownSegments hfree), and_assoc, exists_eq_left, hwhole, whole_located_iff hne,
    last_located_iff, dot_mem_located_iff]
  exact ⟨fun ⟨hlast, hdot, hwhole⟩ => ⟨hdot, hlast, hwhole⟩,
    fun h => ⟨h.last_full, h.no_dot, h.last_whole⟩⟩

/-- Of ordinary names the rules about folders leave some, and the last two rules leave these. -/
theorem shownNames_of_plain (hsegments : ∀ s ∈ segments, IsSegment s)
    (hlast : ∀ last ∈ segments.getLast?,
      last.toList.getLast? ≠ some '\n' ∧ ¬"_app".toList <:+ last.toList) :
    shownNames segments = foldedSegments (segments.map String.toList) ∨
      shownNames segments = ["index".toList] := by
  have hfolded : ∀ last ∈ (foldedSegments (segments.map String.toList)).getLast?,
      last.getLast? ≠ some '\n' ∧ ¬"_app".toList <:+ last ∧ '/' ∉ last := by
    rw [(shortened_foldedSegments _).last, List.getLast?_map]
    intro last hmem
    obtain ⟨name, hname, rfl⟩ := Option.mem_map.mp hmem
    exact ⟨(hlast name hname).1, (hlast name hname).2,
      (hsegments name (List.mem_of_getLast? hname)).slashless⟩
  rcases withIndex_of_plain fun last hmem => (hfolded last hmem).1 with heq | heq
  · rw [shownNames, shownSegments, heq, cutApp_of_plain hfolded]
    exact .inl rfl
  · rw [shownNames, shownSegments, heq]
    exact .inr (by decide)

/-- **Ordinary names stay whole**: none is a dot, and the last one does not end in `_app` or in a
line feed. -/
theorem keepsNames_of_plain (hsegments : ∀ s ∈ segments, IsSegment s)
    (hdot : "." ∉ segments)
    (hlast : ∀ last ∈ segments.getLast?,
      last.toList.getLast? ≠ some '\n' ∧ ¬"_app".toList <:+ last.toList) :
    KeepsNames segments filename := by
  rcases shownNames_of_plain hsegments hlast with heq | heq
  · have hmem : ∀ s ∈ shownNames segments, String.ofList s ∈ segments := by
      intro s hs
      rw [heq] at hs
      obtain ⟨name, hname, rfl⟩ :=
        List.mem_map.mp ((shortened_foldedSegments _).sublist.subset hs)
      rwa [String.ofList_toList]
    exact ⟨fun hdot' => hdot (hmem _ hdot'),
      fun hempty => absurd rfl (hsegments _ (hmem _ (List.mem_of_getLast? hempty))).nonempty,
      fun last hlast _ => .inl (hmem last (List.mem_of_getLast? hlast))⟩
  · have hempty : (shownNames segments).getLast? ≠ some [] := by
      rw [heq]
      decide
    refine ⟨?_, fun hnil => absurd hnil hempty, fun last hlast _ => .inr (.inl ?_)⟩
    · rw [heq]
      decide
    · rw [heq] at hlast
      rw [← Option.mem_some_iff.mp hlast]
      rfl

end

/-- **Where the path of a page is good.** A page that asks for an address gets a good path if no
name of it is a dot. Another page does if the rules for addresses leave the names of its place
whole. -/
theorem pagePath_wellPlaced {filename : String} (hfile : '/' ∉ filename.toList) :
    (∀ place explicit, ¬"//".toList <:+: (pagePath place filename explicit).toList) ∧
    (∀ place address, (∃ names, IsModulePath names (pagePath place filename (some address))) ↔
      "." ∉ splitOn '/' address) ∧
    ∀ segments : List String, segments ≠ [] → (∀ s ∈ segments, IsSegment s) →
      ((∃ names, IsModulePath names (pagePath ("/".intercalate segments) filename) ∧
          ∀ s ∈ names, IsWhole segments filename s) ↔
        KeepsNames segments filename) :=
  ⟨fun place explicit => pagePath_single place filename explicit, explicit_wellPlaced hfile,
    fun _ hne hsegments => place_wellPlaced hfile hne hsegments⟩

theorem pagePath_wellPlaced_blog :
    '/' ∉ "[slug].ts".toList ∧ (∀ s ∈ ["blog", "posts"], IsSegment s) ∧
      KeepsNames ["blog", "posts"] "[slug].ts" ∧
      ∃ names, IsModulePath names (pagePath ("/".intercalate ["blog", "posts"]) "[slug].ts") ∧
        ∀ s ∈ names, IsWhole ["blog", "posts"] "[slug].ts" s := by
  have hfile : '/' ∉ "[slug].ts".toList := by decide
  have hsegments : ∀ s ∈ ["blog", "posts"], IsSegment s :=
    List.forall_mem_cons.mpr
      ⟨⟨by decide, by decide⟩, List.forall_mem_singleton.mpr ⟨by decide, by decide⟩⟩
  have hkeeps : KeepsNames ["blog", "posts"] "[slug].ts" :=
    keepsNames_of_plain hsegments (by decide) (by decide)
  exact ⟨hfile, hsegments, hkeeps,
    ((pagePath_wellPlaced hfile).2.2 _ (List.cons_ne_nil _ _) hsegments).mpr hkeeps⟩

/-- A name that ends in `_app` loses its end, and a folder of that name leaves a file without a
name. The source folder itself goes to a file that is called by a dot. -/
theorem misplaced_app :
    pagePath "my_app" = "routes/my.tsx" ∧ pagePath "blog/_app" = "routes/blog/.tsx" ∧
      pagePath "." = "routes/..tsx" ∧
      ¬∃ names, IsModulePath names (pagePath "my_app") ∧
        ∀ s ∈ names, IsWhole ["my_app"] "mod.ts" s := by
  refine ⟨by decide +kernel, by decide +kernel, by decide +kernel, fun hgood => ?_⟩
  have hsegments : ∀ s ∈ ["my_app"], IsSegment s :=
    List.forall_mem_singleton.mpr ⟨by decide, by decide⟩
  have hkeeps := (place_wellPlaced (by decide) (List.cons_ne_nil _ _) hsegments).mp hgood
  have hlast : (shownNames ["my_app"]).getLast? = some "my".toList := by decide
  rcases hkeeps.last_whole _ hlast (by decide) with hmem | hindex | ⟨segment, hsegment, -⟩
  · exact absurd hmem (by decide)
  · exact absurd hindex (by decide)
  · have hnone : dynamicSegment? "mod.ts" = none := by decide
    rw [hnone] at hsegment
    cases hsegment

end Trellis.Output
