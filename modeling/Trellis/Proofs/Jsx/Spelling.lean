import Mathlib.Data.Set.Function
import Trellis.Jsx.Tag
import Trellis.Proofs.Text.Capitals
import Trellis.Proofs.Text.Segments

/-!
# Spellings of components

A component can be written in two ways: `<status-badge>` in small letters between hyphens, and
`<StatusBadge>` as its class is called. Either way alone is faithful: no two tags are the same
component. Across the two ways they can be.

* `isKebab` is the first way, `isCapitalised` the second.
* `pascalCase_injOn`: the capitals of a class name show where the hyphens of its tag were.
* `jsxName_injOn`: tags that are all written in one way name as many components as there are tags.
-/

namespace Trellis.Jsx

open Trellis.Text

/-! ## Tags in small letters -/

/-- A small ASCII letter, and no ASCII capital after it. -/
def isSmallWord (part : String) : Bool :=
  match part.toList with
  | [] => false
  | c :: cs => c.isLower && cs.all (!·.isUpper)

/-- The tag is made of such words, with hyphens between them. -/
def isKebab (tag : String) : Bool := (splitOn '-' tag).all isSmallWord

/-- The tag starts with a capital. -/
def isCapitalised (tag : String) : Bool := (tag.toList.head?.map isCapital).getD false

theorem isSmallWord_iff {part : String} :
    isSmallWord part = true ↔
      ∃ c cs, part.toList = c :: cs ∧ c.isLower = true ∧ ∀ d ∈ cs, d.isUpper = false := by
  rw [isSmallWord]
  cases hpart : part.toList with
  | nil => simp
  | cons c cs => simp [and_assoc]

/-- A word with its capital. -/
theorem toList_upperFirst {part : String} {c : Char} {cs : List Char}
    (hpart : part.toList = c :: cs) (hc : c.isLower = true) :
    (upperFirst part).toList = c.toUpper :: cs := by
  rw [upperFirst, hpart]
  simp only [upperOf, if_pos (toNat_lt_of_isLower hc), String.toList_ofList]
  rfl

/-- Words with their capitals, one after the other. -/
def capitalWords (parts : List String) : List Char :=
  parts.flatMap fun part => (upperFirst part).toList

theorem toList_pascalCase (tag : String) :
    (Naming.pascalCase tag).toList = capitalWords (splitOn '-' tag) := by
  rw [Naming.pascalCase, capitalWords, String.toList_join, List.flatMap_map]

theorem capitalWords_cons {part : String} {c : Char} {cs : List Char}
    (hpart : part.toList = c :: cs) (hc : c.isLower = true) (parts : List String) :
    capitalWords (part :: parts) = c.toUpper :: (cs ++ capitalWords parts) := by
  rw [capitalWords, List.flatMap_cons, toList_upperFirst hpart hc]
  rfl

/-- The rest of a word is what stands before the next capital. -/
theorem takeWhile_capitalWords {word : List Char} {parts : List String}
    (hword : ∀ e ∈ word, e.isUpper = false) (hparts : ∀ part ∈ parts, isSmallWord part = true) :
    (word ++ capitalWords parts).takeWhile (!·.isUpper) = word := by
  rw [List.takeWhile_append_of_pos (by simpa using hword)]
  cases parts with
  | nil => exact List.append_nil word
  | cons part parts =>
    obtain ⟨c, cs, hpart, hc, -⟩ := isSmallWord_iff.mp (hparts part List.mem_cons_self)
    rw [capitalWords_cons hpart hc, List.takeWhile_cons, isUpper_toUpper hc]
    exact List.append_nil word

/-- Words are told apart by their capitals. -/
theorem capitalWords_inj {ps qs : List String} (hp : ∀ p ∈ ps, isSmallWord p = true)
    (hq : ∀ q ∈ qs, isSmallWord q = true) (h : capitalWords ps = capitalWords qs) : ps = qs := by
  induction ps generalizing qs with
  | nil =>
    cases qs with
    | nil => rfl
    | cons q qs =>
      obtain ⟨d, ds, hqd, hd, -⟩ := isSmallWord_iff.mp (hq q List.mem_cons_self)
      rw [capitalWords_cons hqd hd] at h
      cases h
  | cons p ps ih =>
    obtain ⟨c, cs, hpc, hc, hcs⟩ := isSmallWord_iff.mp (hp p List.mem_cons_self)
    rw [capitalWords_cons hpc hc] at h
    cases qs with
    | nil => cases h
    | cons q qs =>
      obtain ⟨d, ds, hqd, hd, hds⟩ := isSmallWord_iff.mp (hq q List.mem_cons_self)
      rw [capitalWords_cons hqd hd] at h
      have hps : ∀ p ∈ ps, isSmallWord p = true := fun p h => hp p (List.mem_cons_of_mem _ h)
      have hqs : ∀ q ∈ qs, isSmallWord q = true := fun q h => hq q (List.mem_cons_of_mem _ h)
      obtain ⟨hfirst, hrest⟩ := List.cons.inj h
      have hword : cs = ds := by
        rw [← takeWhile_capitalWords hcs hps, hrest, takeWhile_capitalWords hds hqs]
      subst hword
      have hpq : p = q := by
        rw [← String.toList_inj, hpc, hqd, toUpper_inj_of_isLower hc hd hfirst]
      rw [hpq, ih hps hqs (List.append_cancel_left hrest)]

/-- **The capitals of a class name show where the hyphens of its tag were.** -/
theorem pascalCase_injOn : Set.InjOn Naming.pascalCase {tag | isKebab tag = true} := by
  intro a ha b hb h
  have hwords : capitalWords (splitOn '-' a) = capitalWords (splitOn '-' b) := by
    rw [← toList_pascalCase, ← toList_pascalCase, h]
  exact splitOn_injective '-' (capitalWords_inj (List.all_eq_true.mp ha) (List.all_eq_true.mp hb)
    hwords)

/-! ## Tags of components -/

theorem isCapitalised_of_isKebab {tag : String} (h : isKebab tag = true) :
    isCapitalised tag = false := by
  obtain ⟨first, others, hpieces⟩ :=
    List.exists_cons_of_ne_nil (splitAtEach_ne_nil (· == '-') tag.toList)
  have hsmall : isSmallWord (String.ofList first) = true := by
    refine List.all_eq_true.mp h _ ?_
    rw [splitOn, hpieces]
    exact List.mem_cons_self
  obtain ⟨c, cs, hfirst, hc, -⟩ := isSmallWord_iff.mp hsmall
  have hhead : tag.toList.head? = some c := by
    rw [String.toList_ofList] at hfirst
    rw [← intercalate_splitAtEach '-' tag.toList, hpieces, hfirst]
    cases others with
    | nil => rfl
    | cons second others => rw [List.intercalate_cons_cons]; rfl
  rw [isCapitalised, hhead, Option.map_some, Option.getD_some, isCapital,
    if_pos (toNat_lt_of_isLower hc)]
  exact isUpper_of_isLower hc

theorem jsxName_kebab {tag : String} (hcustom : isCustom tag = true) (h : isKebab tag = true) :
    jsxName tag = Naming.pascalCase tag := by
  have hhead := isCapitalised_of_isKebab h
  rw [isCapitalised] at hhead
  simp [jsxName, hcustom, hhead]

theorem jsxName_capitalised {tag : String} (h : isCapitalised tag = true) : jsxName tag = tag := by
  rw [isCapitalised] at h
  rw [jsxName, h]
  split <;> rfl

/-- **Tags that are all written in one way are as many components.** -/
theorem jsxName_injOn {tags : List String} (hcustom : ∀ tag ∈ tags, isCustom tag = true)
    (h : (∀ tag ∈ tags, isKebab tag = true) ∨ ∀ tag ∈ tags, isCapitalised tag = true) :
    ∀ a ∈ tags, ∀ b ∈ tags, jsxName a = jsxName b → a = b := by
  intro a ha b hb hname
  rcases h with hkebab | hcapital
  · rw [jsxName_kebab (hcustom a ha) (hkebab a ha), jsxName_kebab (hcustom b hb) (hkebab b hb)]
      at hname
    exact pascalCase_injOn (hkebab a ha) (hkebab b hb) hname
  · rwa [jsxName_capitalised (hcapital a ha), jsxName_capitalised (hcapital b hb)] at hname

end Trellis.Jsx
