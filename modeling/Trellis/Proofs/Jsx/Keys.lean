import Mathlib.Tactic.Tauto
import Trellis.Naming
import Trellis.Proofs.Text.Capitals
import Trellis.Proofs.Text.Substitution

/-!
# Style properties as object keys

A style property is named in CSS, where hyphens join words, and is a key of an object in JSX, where
capitals do.

* `camelChars_hyphen` and `camelChars_pass` are the two steps from the one spelling to the other.
* `camelCase_injective`: properties without capitals never share a key.
* `isKey_camelChars`: the key is a name in JavaScript exactly if each hyphen joins two words, that
  is, stands directly before a small letter. Those of a custom property do not.
-/

namespace Trellis.Naming

open Trellis.Text

/-- The key of a property, as a list of characters. -/
def camelChars (cs : List Char) : List Char := substituteFrom camelRule none 0 cs

theorem camelCase_ofList (cs : List Char) :
    camelCase (String.ofList cs) = String.ofList (camelChars cs) := by
  rw [camelCase, substitute, String.toList_ofList, camelChars]

/-- What stands before a place does not count. -/
theorem camelRule_prev (prev : Option Char) (cs : List Char) :
    camelRule prev cs = camelRule none cs := by
  cases cs with
  | nil => rfl
  | cons c cs =>
    by_cases hc : c = '-'
    · subst hc
      cases cs <;> rfl
    · simp [camelRule, hc]

theorem substituteFrom_camelRule (prev : Option Char) (cs : List Char) :
    substituteFrom camelRule prev 0 cs = camelChars cs := by
  cases cs with
  | nil => rfl
  | cons c cs => rw [camelChars, substituteFrom, substituteFrom, camelRule_prev]

/-- A hyphen that joins two words goes, and the next word starts with a capital. -/
theorem camelChars_hyphen {c : Char} (hc : c.isLower = true) (cs : List Char) :
    camelChars ('-' :: c :: cs) = c.toUpper :: camelChars cs := by
  have hmatch : camelRule none ('-' :: ([c] ++ cs)) = some ([c].length + 1, [c.toUpper]) := by
    simp [camelRule, hc]
  have hstep := substituteFrom_match hmatch
  rwa [substituteFrom_camelRule, substituteFrom_camelRule] at hstep

/-- The first character of a name does not join two words. -/
def Stays (c : Char) (cs : List Char) : Prop := c = '-' → ∀ d ∈ cs.head?, d.isLower = false

/-- All other characters stay. -/
theorem camelChars_pass {c : Char} {cs : List Char} (hc : Stays c cs) :
    camelChars (c :: cs) = c :: camelChars cs := by
  have hpass : camelRule none (c :: cs) = none := by
    by_cases hhyphen : c = '-'
    · cases cs with
      | nil => simp [camelRule]
      | cons d cs => simp [camelRule, hc hhyphen d rfl, hhyphen]
    · simp [camelRule, hhyphen]
  rw [camelChars, substituteFrom_pass hpass, substituteFrom_camelRule]

/-- A name is empty, or it starts with a hyphen that joins two words or with another character. -/
theorem camel_induction {P : List Char → Prop} (nil : P [])
    (hyphen : ∀ c cs, c.isLower = true → P cs → P ('-' :: c :: cs))
    (pass : ∀ c cs, Stays c cs → P cs → P (c :: cs)) : ∀ cs, P cs
  | [] => nil
  | [c] => pass c [] (fun _ => nofun) nil
  | c :: d :: cs => by
    by_cases hd : c = '-' ∧ d.isLower = true
    · rw [hd.1]
      exact hyphen d cs hd.2 (camel_induction nil hyphen pass cs)
    · refine pass c (d :: cs) (fun hc e he => ?_) (camel_induction nil hyphen pass (d :: cs))
      rw [← Option.some.inj he]
      simpa using fun hlower => hd ⟨hc, hlower⟩

/-! ## Distinct properties -/

/-- The property of a key: each capital starts a word. -/
def kebabChars (cs : List Char) : List Char :=
  cs.flatMap fun c => if c.isUpper then ['-', c.toLower] else [c]

/-- The key of a property without capitals tells the property. -/
theorem kebabChars_camelChars (cs : List Char) (hcs : ∀ c ∈ cs, c.isUpper = false) :
    kebabChars (camelChars cs) = cs := by
  induction cs using camel_induction with
  | nil => rfl
  | hyphen c cs hc ih =>
    rw [camelChars_hyphen hc, kebabChars, List.flatMap_cons, if_pos (isUpper_toUpper hc),
      toLower_toUpper (isUpper_of_isLower hc)]
    exact congrArg (['-', c] ++ ·) (ih fun d hd => hcs d (by simp [hd]))
  | pass c cs hc ih =>
    obtain ⟨hsmall, hcs⟩ := List.forall_mem_cons.mp hcs
    rw [camelChars_pass hc, kebabChars, List.flatMap_cons, if_neg (by simp [hsmall])]
    exact congrArg (c :: ·) (ih hcs)

/-- Properties without capitals never share a key. -/
theorem camelCase_injective {a b : List Char} (ha : ∀ c ∈ a, c.isUpper = false)
    (hb : ∀ c ∈ b, c.isUpper = false)
    (h : camelCase (String.ofList a) = camelCase (String.ofList b)) : a = b := by
  rw [camelCase_ofList, camelCase_ofList, String.ofList_inj] at h
  rw [← kebabChars_camelChars a ha, h, kebabChars_camelChars b hb]

/-! ## Names in CSS and in JavaScript -/

/-- The characters of names in CSS. -/
def isCssPart (c : Char) : Bool := c.isAlphanum || c == '_' || c == '-' || 128 ≤ c.toNat

/-- The characters that can start a name in CSS. -/
def isCssStart (c : Char) : Bool := c.isAlpha || c == '_' || 128 ≤ c.toNat

/-- A name in CSS, without escapes: it may start with one hyphen, or with two if it is that of a
custom property. -/
def isCssName : List Char → Bool
  | '-' :: '-' :: cs => cs.all isCssPart
  | '-' :: c :: cs => isCssStart c && cs.all isCssPart
  | c :: cs => isCssStart c && cs.all isCssPart
  | [] => false

/-- Each hyphen joins two words: it stands directly before a small letter. -/
def Joined : List Char → Prop
  | '-' :: c :: cs => c.isLower = true ∧ Joined cs
  | ['-'] => False
  | _ :: cs => Joined cs
  | [] => True

section

variable (wideStart widePart : Char → Bool)

/-- The characters that can start a name in JavaScript. Beyond ASCII they are those of a table. -/
def isKeyStart (c : Char) : Bool :=
  if c.toNat < 128 then c.isAlpha || c == '$' || c == '_' else wideStart c

/-- The characters of names in JavaScript. -/
def isKeyPart (c : Char) : Bool :=
  if c.toNat < 128 then c.isAlphanum || c == '$' || c == '_' else widePart c

/-- A name in JavaScript, which any key of an object can be. -/
def IsKey : List Char → Prop
  | c :: cs => isKeyStart wideStart c = true ∧ ∀ d ∈ cs, isKeyPart widePart d = true
  | [] => False

variable {wideStart widePart : Char → Bool} {c : Char} {cs : List Char}

theorem isKeyPart_of_isCssPart (hc : isCssPart c = true) (hne : c ≠ '-') :
    isKeyPart widePart c = true ↔ (128 ≤ c.toNat → widePart c = true) := by
  rw [isKeyPart]
  by_cases hwide : c.toNat < 128
  · have hascii : ¬ 128 ≤ c.toNat := by omega
    have halpha : c.isAlphanum = true ∨ c = '_' := by simpa [isCssPart, hne, hascii] using hc
    rcases halpha with halpha | rfl
    · simp [hwide, hascii, halpha]
    · simp
  · simp [hwide, Nat.not_lt.mp hwide]

theorem isKeyStart_of_isCssStart (hc : isCssStart c = true) :
    isKeyStart wideStart c = true ↔ (128 ≤ c.toNat → wideStart c = true) := by
  rw [isKeyStart]
  by_cases hwide : c.toNat < 128
  · have hascii : ¬ 128 ≤ c.toNat := by omega
    have halpha : c.isAlpha = true ∨ c = '_' := by simpa [isCssStart, hascii] using hc
    rcases halpha with halpha | rfl
    · simp [hwide, hascii, halpha]
    · simp
  · simp [hwide, Nat.not_lt.mp hwide]

theorem isKey_of_isUpper (hc : c.isUpper = true) :
    (∀ wide, isKeyStart wide c = true) ∧ ∀ wide, isKeyPart wide c = true := by
  have hascii := toNat_lt_of_isUpper hc
  have halpha := isAlpha_of_isUpper hc
  simp [isKeyStart, isKeyPart, hascii, halpha, isAlphanum_of_isAlpha halpha]

theorem joined_cons (hc : c ≠ '-') : Joined (c :: cs) ↔ Joined cs := by
  rw [Joined.eq_def]
  split
  · next h => exact absurd (List.cons.inj h).1 hc
  · next h => exact absurd (List.cons.inj h).1 hc
  · next h => rw [(List.cons.inj h).2]
  · next h => cases h

theorem joined_hyphen (hc : ∀ d ∈ cs.head?, d.isLower = false) : ¬ Joined ('-' :: cs) := by
  cases cs with
  | nil => exact id
  | cons d cs => simp [Joined, hc d rfl]

/-- The characters of a key. -/
theorem forall_isKeyPart_camelChars (hcs : ∀ c ∈ cs, isCssPart c = true) :
    (∀ d ∈ camelChars cs, isKeyPart widePart d = true) ↔
      Joined cs ∧ ∀ c ∈ cs, 128 ≤ c.toNat → widePart c = true := by
  induction cs using camel_induction with
  | nil => simp [camelChars, substituteFrom, Joined]
  | hyphen c cs hc ih =>
    obtain ⟨-, hcs⟩ := List.forall_mem_cons.mp hcs
    obtain ⟨-, hcs⟩ := List.forall_mem_cons.mp hcs
    have hcapital := (isKey_of_isUpper (isUpper_toUpper hc)).2 widePart
    have hascii : ¬ 128 ≤ c.toNat := Nat.not_le.mpr (toNat_lt_of_isLower hc)
    rw [camelChars_hyphen hc, List.forall_mem_cons, ih hcs, Joined]
    simp [hcapital, hc, hascii]
  | pass c cs hc ih =>
    obtain ⟨hpart, hcs⟩ := List.forall_mem_cons.mp hcs
    rw [camelChars_pass hc, List.forall_mem_cons, ih hcs, List.forall_mem_cons]
    by_cases hne : c = '-'
    · subst hne
      simp [joined_hyphen (hc rfl), isKeyPart]
    · rw [isKeyPart_of_isCssPart hpart hne, joined_cons hne]
      tauto

theorem isCssPart_of_isCssStart (hc : isCssStart c = true) : isCssPart c = true := by
  simp only [isCssStart, isCssPart, Bool.or_eq_true] at hc ⊢
  have halpha : c.isAlpha = true → c.isAlphanum = true := isAlphanum_of_isAlpha
  tauto

theorem isCssPart_of_isCssName (hcs : isCssName cs = true) : ∀ c ∈ cs, isCssPart c = true := by
  have hhyphen : isCssPart '-' = true := by decide
  rw [isCssName.eq_def] at hcs
  split at hcs
  · simpa [hhyphen] using hcs
  · obtain ⟨hc, hcs⟩ := Bool.and_eq_true_iff.mp hcs
    simpa [hhyphen, isCssPart_of_isCssStart hc] using hcs
  · obtain ⟨hc, hcs⟩ := Bool.and_eq_true_iff.mp hcs
    simpa [isCssPart_of_isCssStart hc] using hcs
  · cases hcs

theorem isCssStart_of_isCssName (hcs : isCssName (c :: cs) = true) (hc : c ≠ '-') :
    isCssStart c = true := by
  rw [isCssName.eq_def] at hcs
  split at hcs
  · next h => exact absurd (List.cons.inj h).1 hc
  · next h => exact absurd (List.cons.inj h).1 hc
  · next h =>
    rw [(List.cons.inj h).1]
    exact (Bool.and_eq_true_iff.mp hcs).1
  · next h => cases h

/-- **The keys that are names.** The key of a property is a name in JavaScript exactly if each
hyphen of the property joins two words, and its characters beyond ASCII are those of such names. -/
theorem isKey_camelChars (hcs : isCssName cs = true) :
    IsKey wideStart widePart (camelChars cs) ↔
      Joined cs ∧ (∀ c ∈ cs.head?, 128 ≤ c.toNat → wideStart c = true) ∧
        ∀ c ∈ cs.tail, 128 ≤ c.toNat → widePart c = true := by
  cases cs with
  | nil => cases hcs
  | cons c cs =>
    obtain ⟨-, hparts⟩ := List.forall_mem_cons.mp (isCssPart_of_isCssName hcs)
    by_cases hc : c = '-'
    · subst hc
      by_cases hjoins : ∃ d ds, cs = d :: ds ∧ d.isLower = true
      · obtain ⟨d, ds, rfl, hd⟩ := hjoins
        obtain ⟨-, hparts⟩ := List.forall_mem_cons.mp hparts
        have hcapital := (isKey_of_isUpper (isUpper_toUpper hd)).1 wideStart
        have hascii : ¬ 128 ≤ d.toNat := Nat.not_le.mpr (toNat_lt_of_isLower hd)
        rw [camelChars_hyphen hd, IsKey, forall_isKeyPart_camelChars hparts, Joined]
        simp [hcapital, hd, hascii]
      · have hstays : ∀ d ∈ cs.head?, d.isLower = false := by
          intro d hd
          obtain ⟨ds, rfl⟩ := List.head?_eq_some_iff.mp hd
          simpa using fun hlower => hjoins ⟨d, ds, rfl, hlower⟩
        rw [camelChars_pass fun _ => hstays, IsKey]
        simp [joined_hyphen hstays, isKeyStart]
    · rw [camelChars_pass fun h => absurd h hc, IsKey, forall_isKeyPart_camelChars hparts,
        isKeyStart_of_isCssStart (isCssStart_of_isCssName hcs hc), joined_cons hc]
      simp
      tauto

end

end Trellis.Naming
