import Trellis.Output.Page

/-!
# Where pages go

The module of a page that asks for no address goes below `routes`, to the address that its place in
the source folder gives it. The rules for addresses lose information: folders named `routes`, a
leading `home` and repeated slashes do not show, nor does a file's name unless it is in brackets.

* `pageAddress` is the address of a page with its variable part, `shownAddress` the same in the form
  that counts, with single slashes.
* `pagePath_located`: the module goes to the address that the page asks for, else to that of its
  place.
* `pagePath_eq`: in the second case it goes to the shown address, so two pages go to one file
  exactly if they show one address (`pagePath_inj`).
-/

namespace Trellis.Output

open Trellis.Text
open Trellis.Project

/-! ## Slashes -/

theorem collapse_cons (prev : Option Char) (c : Char) (cs : List Char) :
    substituteFrom slashRule prev 0 (c :: cs) =
      if prev = some '/' ∧ c = '/' then substituteFrom slashRule (some c) 0 cs
      else c :: substituteFrom slashRule (some c) 0 cs := by
  rw [substituteFrom]
  unfold slashRule
  by_cases h : prev = some '/' ∧ c = '/'
  · obtain ⟨rfl, rfl⟩ := h
    rfl
  · have hrule : (prev == some '/' && (c :: cs).head? == some '/') = false := by
      simpa using h
    rw [hrule, if_neg h]
    rfl

theorem collapse_chars_append (prev : Option Char) (xs ys : List Char) :
    substituteFrom slashRule prev 0 (xs ++ ys) =
      substituteFrom slashRule prev 0 xs ++
        substituteFrom slashRule (xs.getLast?.or prev) 0 ys := by
  induction xs generalizing prev with
  | nil => rfl
  | cons c xs ih =>
    have hlast : (c :: xs).getLast?.or prev = xs.getLast?.or (some c) := by
      rw [List.getLast?_cons]
      cases xs.getLast? <;> rfl
    rw [List.cons_append, collapse_cons, collapse_cons, ih, hlast]
    split <;> rfl

/-- Only a slash before the text matters, and only to a slash at its beginning. -/
theorem collapse_chars_after {prev : Option Char} {cs : List Char}
    (h : prev ≠ some '/' ∨ cs.head? ≠ some '/') :
    substituteFrom slashRule prev 0 cs = substituteFrom slashRule none 0 cs := by
  cases cs with
  | nil => rfl
  | cons c cs =>
    have hprev : ¬(prev = some '/' ∧ c = '/') := by
      rintro ⟨rfl, rfl⟩
      rcases h with h | h <;> exact h rfl
    rw [collapse_cons, collapse_cons, if_neg hprev, if_neg (by simp)]

/-- Texts that do not meet in slashes. -/
theorem collapseSlashes_append {s t : String}
    (h : s.toList.getLast? ≠ some '/' ∨ t.toList.head? ≠ some '/') :
    collapseSlashes (s ++ t) = collapseSlashes s ++ collapseSlashes t := by
  unfold collapseSlashes substitute
  rw [String.toList_append, collapse_chars_append, String.ofList_append, Option.or_none,
    collapse_chars_after h]

/-- A first slash stays. -/
theorem exists_collapse (s : String) : ∃ rest, collapseSlashes ("/" ++ s) = "/" ++ rest := by
  have hslash : ("/" ++ s).toList = '/' :: s.toList := by
    rw [String.toList_append]
    rfl
  unfold collapseSlashes substitute
  rw [hslash, collapse_cons, if_neg (by simp), ← List.singleton_append, String.ofList_append]
  exact ⟨_, rfl⟩

/-- A text without slashes stays. -/
theorem collapse_chars_slashless {cs : List Char} (h : '/' ∉ cs) (prev : Option Char) :
    substituteFrom slashRule prev 0 cs = cs := by
  induction cs generalizing prev with
  | nil => rfl
  | cons c cs ih =>
    obtain ⟨hc, hcs⟩ := not_or.mp (mt List.mem_cons.mpr h)
    rw [collapse_cons, if_neg (fun hall => hc hall.2.symm), ih hcs]

/-- No slash is doubled, whatever stands before the text. -/
theorem collapse_single (prev : Option Char) (cs : List Char) :
    ¬['/', '/'] <:+: prev.toList ++ substituteFrom slashRule prev 0 cs := by
  induction cs generalizing prev with
  | nil =>
    intro h
    have hlength := h.length_le
    cases prev <;> simp [substituteFrom] at hlength
  | cons c cs ih =>
    rw [collapse_cons]
    split
    · next hslash =>
      obtain ⟨rfl, rfl⟩ := hslash
      exact ih (some '/')
    · next hslash =>
      have hrest : ¬['/', '/'] <:+: c :: substituteFrom slashRule (some c) 0 cs := ih (some c)
      cases prev with
      | none => exact hrest
      | some d =>
        intro h
        rcases List.infix_cons_iff.mp h with hstarts | hinfix
        · obtain ⟨hd, hstarts⟩ := List.cons_prefix_cons.mp hstarts
          exact hslash ⟨congrArg some hd.symm, (List.cons_prefix_cons.mp hstarts).1.symm⟩
        · exact hrest hinfix

/-! ## Addresses -/

/-- The address of a page from its place in the source folder, with the variable part that a name in
brackets adds. -/
def pageAddress (relativePath filename : String) : String :=
  match dynamicSegment? filename with
  | some segment => addressOf relativePath ++ "/[" ++ segment ++ "]"
  | none => if addressOf relativePath = "" then "index" else addressOf relativePath

/-- The address with a slash before it and single slashes. -/
def shownAddress (relativePath filename : String) : String :=
  collapseSlashes ("/" ++ pageAddress relativePath filename)

/-- The slash before an address stays. -/
theorem exists_shownAddress (relativePath filename : String) :
    ∃ rest, shownAddress relativePath filename = "/" ++ rest :=
  exists_collapse (pageAddress relativePath filename)

/-- A text without a known end, and the end. -/
theorem dropLast_append {s last : String} {n : Nat} (hn : last.toList.length = n)
    (h : hasEnd s last = true) : dropLast n s ++ last = s := by
  obtain ⟨front, hfront⟩ := List.isSuffixOf_iff_suffix.mp h
  have hlength : s.toList.length - n = front.length := by
    rw [← hfront, List.length_append, hn]
    omega
  have htake : s.toList.take front.length = front := by
    rw [← hfront, List.take_left]
  unfold dropLast
  rw [hlength, htake, ← String.toList_inj, String.toList_append, String.toList_ofList, hfront]

/-- The file at an address, however the address is written. -/
theorem collapse_place (address : String) :
    collapseSlashes ("routes/" ++ address ++ ".tsx") =
      "routes" ++ collapseSlashes ("/" ++ address) ++ ".tsx" := by
  have hsplit : "routes/" ++ address ++ ".tsx" = "routes" ++ ("/" ++ address) ++ ".tsx" := by
    simp only [← String.append_assoc]
    rfl
  rw [hsplit, collapseSlashes_append (.inr (by decide)), collapseSlashes_append (.inl (by decide))]
  rfl

/-- An address with the variable part that a name in brackets adds. -/
def located (address filename : String) : String :=
  match dynamicSegment? filename with
  | some segment => address ++ "/[" ++ segment ++ "]"
  | none => if address = "" then "index" else address

/-- A page goes to the address that it asks for, else to that of its place. -/
theorem pagePath_located (relativePath filename : String) (explicit : Option String) :
    pagePath relativePath filename explicit =
      "routes" ++ collapseSlashes ("/" ++
        located ((explicit.map trimSlashes).getD (addressOf relativePath)) filename) ++ ".tsx" := by
  unfold pagePath located
  generalize (explicit.map trimSlashes).getD (addressOf relativePath) = address
  rw [← collapse_place]
  cases dynamicSegment? filename with
  | some segment =>
    have hfile : "routes/" ++ address ++ "/[" ++ segment ++ "].tsx" =
        "routes/" ++ (address ++ "/[" ++ segment ++ "]") ++ ".tsx" := by
      simp only [String.append_assoc]
      rfl
    dsimp only
    rw [hfile]
  | none =>
    dsimp only
    by_cases hempty : address = ""
    · subst hempty
      rfl
    · rw [if_neg hempty]
      split
      · next hindex =>
        have haddress : address = "index" := by simpa [hempty] using hindex
        subst haddress
        rfl
      · split
        · next hend =>
          have hdrop : dropLast 6 address ++ "/index" = address :=
            dropLast_append (by decide) hend
          have hfile : "routes/" ++ dropLast 6 address ++ "/index.tsx" =
              "routes/" ++ (dropLast 6 address ++ "/index") ++ ".tsx" := by
            simp only [String.append_assoc]
            rfl
          rw [hfile, hdrop]
        · rfl

/-- **No slash is doubled** in the path of a page. -/
theorem pagePath_single (relativePath filename : String) (explicit : Option String) :
    ¬"//".toList <:+: (pagePath relativePath filename explicit).toList := by
  rw [pagePath_located, ← collapse_place]
  generalize "routes/" ++ _ ++ ".tsx" = text
  have htext : (collapseSlashes text).toList = substituteFrom slashRule none 0 text.toList :=
    String.toList_ofList
  rw [htext]
  exact collapse_single none text.toList

/-- **A page goes to its address.** -/
theorem pagePath_eq (relativePath filename : String) :
    pagePath relativePath filename = "routes" ++ shownAddress relativePath filename ++ ".tsx" :=
  pagePath_located relativePath filename none

/-- **Pages go to one file exactly if they show one address.** -/
theorem pagePath_inj {first second firstName secondName : String} :
    pagePath first firstName = pagePath second secondName ↔
      shownAddress first firstName = shownAddress second secondName := by
  rw [pagePath_eq, pagePath_eq, String.append_left_inj, String.append_right_inj]

end Trellis.Output
