import Trellis.Proofs.Output.Signals

/-!
# Names as they are written

A name in a source can give a character by its number, in four digits or between braces. The braces
are the only characters of a name that mean something to the rule for signals.

* `WrittenName` is a name with such characters, and every name without them is one.
* `Worded` texts are made of characters that mean nothing to the rule and of such numbers. What
  opens a name inside of one is the brace before a number (`Worded.of_opens`), and the text up to
  the next brace starts no `Worded` text (`Worded.not_close`). Where a longer one goes on, a name
  does not end (`Worded.of_append`).
* `WrittenName.standsAlone`: no two places of a name that are caught overlap.
-/

namespace Trellis.Output

open Trellis.Text
open Trellis.TypeScript.Lexer

/-! ## Written names -/

/-- A digit of a number to the base of sixteen. -/
def isHexDigit (c : Char) : Bool := "0123456789abcdefABCDEF".toList.contains c

/-- A part of a name: a character, or the number of one, in four digits or between braces. -/
inductive NamePart where
  | char (c : Char) (h : isIdentifierChar c = true)
  | number (digits : List Char) (h : digits.length = 4 ∧ digits.all isHexDigit = true)
  | braced (digits : List Char) (h : digits ≠ [] ∧ digits.all isHexDigit = true)

/-- The part as it is written. -/
def NamePart.chars : NamePart → List Char
  | .char c _ => [c]
  | .number digits _ => '\\' :: 'u' :: digits
  | .braced digits _ => '\\' :: 'u' :: '\x7b' :: digits ++ ['\x7d']

/-- The part can start a name. -/
def NamePart.canStart : NamePart → Bool
  | .char c _ => isNameStart c
  | .number .. => true
  | .braced .. => true

/-- A name as it is written. -/
structure WrittenName where
  parts : List NamePart
  start : (parts.head?.map NamePart.canStart).getD false = true

namespace WrittenName

/-- The characters of a name as it is written. -/
def chars (n : WrittenName) : List Char := n.parts.flatMap NamePart.chars

/-- The name as a text. -/
def text (n : WrittenName) : String := String.ofList n.chars

end WrittenName

/-- The parts of a name without numbers. -/
def charParts (cs : List Char) : List NamePart :=
  cs.filterMap fun c => if h : isIdentifierChar c = true then some (.char c h) else none

theorem charParts_cons {c : Char} (hc : isIdentifierChar c = true) (cs : List Char) :
    charParts (c :: cs) = .char c hc :: charParts cs :=
  List.filterMap_cons_some (dif_pos hc)

theorem flatMap_charParts {cs : List Char} (h : ∀ c ∈ cs, isIdentifierChar c = true) :
    (charParts cs).flatMap NamePart.chars = cs := by
  induction cs with
  | nil => rfl
  | cons c cs ih =>
    rw [charParts_cons (h c List.mem_cons_self), List.flatMap_cons,
      ih fun d hd => h d (List.mem_cons_of_mem _ hd)]
    rfl

namespace Identifier

/-- A name without numbers, as it is written. -/
def written (n : Identifier) : WrittenName where
  parts := charParts n.chars
  start := by
    obtain ⟨chars, hstart, hall⟩ := n
    cases chars with
    | nil => cases hstart
    | cons c cs =>
      rw [charParts_cons (List.all_eq_true.mp hall c List.mem_cons_self)]
      simpa [NamePart.canStart] using hstart

theorem chars_written (n : Identifier) : n.written.chars = n.chars :=
  flatMap_charParts fun _ hc => n.char_of_mem hc

end Identifier

/-! ## Texts of words and numbers -/

/-- A character that neither opens nor follows a name. -/
def IsOrdinary (c : Char) : Prop := opensReference c = false ∧ followsReference c = false

instance : DecidablePred IsOrdinary := fun c =>
  inferInstanceAs (Decidable (opensReference c = false ∧ followsReference c = false))

/-- A text of ordinary characters, and of such characters between braces. -/
inductive Worded : List Char → Prop
  | nil : Worded []
  | char {c : Char} {s : List Char} (hc : IsOrdinary c) (h : Worded s) : Worded (c :: s)
  | number {digits s : List Char} (hdigits : ∀ d ∈ digits, IsOrdinary d) (h : Worded s) :
      Worded ('\x7b' :: (digits ++ '\x7d' :: s))

theorem IsOrdinary.not_blank {c : Char} (h : IsOrdinary c) : isBlank c = false := by
  refine Bool.eq_false_iff.mpr fun hblank => ?_
  exact absurd (opensReference_iff.mpr (.inr (.inr (.inr hblank)))) (Bool.eq_false_iff.mp h.1)

theorem isOrdinary_hexDigit {c : Char} (h : isHexDigit c = true) : IsOrdinary c := by
  have hall : ∀ d ∈ "0123456789abcdefABCDEF".toList, IsOrdinary d :=
    List.all_iff_forall_prop.mp (by decide)
  exact hall c (by simpa [isHexDigit] using h)

theorem isOrdinary_identifierChar {c : Char} (h : isIdentifierChar c = true) : IsOrdinary c := by
  refine ⟨Bool.eq_false_iff.mpr fun hopens => ?_, Bool.eq_false_iff.mpr fun hfollows => ?_⟩
  · exact absurd h (Bool.eq_false_iff.mp (opensReference_identifier hopens))
  · have hall : ∀ d ∈ "\x7d&|?:.)]!=<>".toList, isIdentifierChar d = false :=
      List.all_iff_forall_prop.mp (by decide)
    rw [hall c (by simpa [followsReference] using hfollows)] at h
    cases h

theorem Worded.append {s t : List Char} (hs : Worded s) (ht : Worded t) : Worded (s ++ t) := by
  induction hs with
  | nil => exact ht
  | char hc _ ih => exact .char hc ih
  | number hdigits _ ih =>
    rw [List.cons_append, List.append_assoc, List.cons_append]
    exact .number hdigits ih

theorem worded_ordinary {s : List Char} (h : ∀ c ∈ s, IsOrdinary c) : Worded s := by
  induction s with
  | nil => exact .nil
  | cons c s ih =>
    exact .char (h c List.mem_cons_self) (ih fun d hd => h d (List.mem_cons_of_mem _ hd))

/-- The parts of a name are such texts. -/
theorem NamePart.worded (p : NamePart) : Worded p.chars := by
  have hescape : IsOrdinary '\\' ∧ IsOrdinary 'u' := by decide
  have hordinary : ∀ digits : List Char, digits.all isHexDigit = true →
      ∀ d ∈ digits, IsOrdinary d :=
    fun digits h d hd => isOrdinary_hexDigit (List.all_eq_true.mp h d hd)
  cases p with
  | char c h => exact .char (isOrdinary_identifierChar h) .nil
  | number digits h => exact .char hescape.1 (.char hescape.2 (worded_ordinary (hordinary _ h.2)))
  | braced digits h => exact .char hescape.1 (.char hescape.2 (.number (hordinary _ h.2) .nil))

theorem WrittenName.worded (n : WrittenName) : Worded n.chars := by
  have hparts : ∀ parts : List NamePart, Worded (parts.flatMap NamePart.chars) := by
    intro parts
    induction parts with
    | nil => exact .nil
    | cons p parts ih => exact p.worded.append ih
  exact hparts n.parts

theorem WrittenName.chars_ne_nil (n : WrittenName) : n.chars ≠ [] := by
  obtain ⟨parts, hstart⟩ := n
  cases parts with
  | nil => cases hstart
  | cons p parts => cases p <;> simp [chars, NamePart.chars]

namespace Worded

variable {s t x v digits : List Char} {c g : Char}

theorem cases_of_mem (h : Worded s) (hc : c ∈ s) :
    IsOrdinary c ∨ c = '\x7b' ∨ c = '\x7d' := by
  induction h with
  | nil => exact absurd hc List.not_mem_nil
  | char hd _ ih =>
    rcases List.mem_cons.mp hc with rfl | hc
    · exact .inl hd
    · exact ih hc
  | number hdigits _ ih =>
    rcases List.mem_cons.mp hc with rfl | hc
    · exact .inr (.inl rfl)
    · rcases List.mem_append.mp hc with hc | hc
      · exact .inl (hdigits c hc)
      · rcases List.mem_cons.mp hc with rfl | hc
        · exact .inr (.inr rfl)
        · exact ih hc

theorem not_blank_of_mem (h : Worded s) (hc : c ∈ s) : isBlank c = false := by
  rcases h.cases_of_mem hc with hc | rfl | rfl
  · exact hc.not_blank
  · decide
  · decide

theorem dot_not_mem (h : Worded s) : '.' ∉ s := by
  intro hc
  rcases h.cases_of_mem hc with hc | hc | hc
  · exact absurd hc (by decide)
  · exact absurd hc (by decide)
  · exact absurd hc (by decide)

/-- A brace that closes no number of the text does not stand in it. -/
theorem not_close (h : Worded s) (hdigits : ∀ d ∈ digits, IsOrdinary d) :
    ¬digits ++ ['\x7d'] <+: s := by
  rintro ⟨r, hr⟩
  rw [List.append_assoc, List.singleton_append] at hr
  induction h generalizing digits with
  | nil => simp at hr
  | char hc h ih =>
    cases digits with
    | nil =>
      obtain ⟨rfl, -⟩ := List.cons.inj hr
      exact absurd hc (by decide)
    | cons d digits =>
      obtain ⟨rfl, hrest⟩ := List.cons.inj hr
      exact ih (fun e he => hdigits e (List.mem_cons_of_mem _ he)) hrest
  | number hinner h ih =>
    cases digits with
    | nil => exact absurd (List.cons.inj hr).1 (by decide)
    | cons d digits =>
      obtain ⟨rfl, -⟩ := List.cons.inj hr
      exact absurd (hdigits _ List.mem_cons_self) (by decide)

/-- What opens a name inside of the text is the brace before a number. -/
theorem of_opens (h : Worded s) (hs : s = x ++ g :: v) (hg : opensReference g = true) :
    g = '\x7b' ∧ ∃ digits r, v = digits ++ '\x7d' :: r ∧ ∀ d ∈ digits, IsOrdinary d := by
  induction h generalizing x with
  | nil => simp at hs
  | char hc h ih =>
    obtain ⟨-, hgc⟩ | ⟨x, rfl, hx⟩ := List.cons_eq_append_iff.mp hs
    · obtain ⟨rfl, -⟩ := List.cons.inj hgc
      rw [hc.1] at hg
      cases hg
    · exact ih hx
  | @number inner s hinner h ih =>
    obtain ⟨-, hgc⟩ | ⟨x, rfl, hx⟩ := List.cons_eq_append_iff.mp hs
    · obtain ⟨rfl, rfl⟩ := List.cons.inj hgc
      exact ⟨rfl, inner, s, rfl, hinner⟩
    · -- it stands behind the number, since no digit opens a name
      rcases List.append_eq_append_iff.mp hx with ⟨z, rfl, hz⟩ | ⟨z, rfl, hz⟩
      · obtain ⟨-, hgc⟩ | ⟨z, rfl, hrest⟩ := List.cons_eq_append_iff.mp hz
        · obtain ⟨rfl, -⟩ := List.cons.inj hgc
          exact absurd hg (by decide)
        · exact ih hrest
      · obtain ⟨-, hgc⟩ | ⟨z, rfl, -⟩ := List.cons_eq_append_iff.mp hz
        · obtain ⟨rfl, -⟩ := List.cons.inj hgc
          exact absurd hg (by decide)
        · have hordinary := hinner g (by simp)
          rw [hordinary.1] at hg
          cases hg

/-- A number ends with the first brace that closes it. -/
theorem number_inj {digits' r r' : List Char} (hdigits : ∀ d ∈ digits, IsOrdinary d)
    (hdigits' : ∀ d ∈ digits', IsOrdinary d) (h : digits ++ '\x7d' :: r = digits' ++ '\x7d' :: r') :
    digits = digits' ∧ r = r' := by
  have hclose : ¬IsOrdinary '\x7d' := by decide
  induction digits generalizing digits' with
  | nil =>
    cases digits' with
    | nil => exact ⟨rfl, (List.cons.inj h).2⟩
    | cons e digits' =>
      obtain ⟨rfl, -⟩ := List.cons.inj h
      exact absurd (hdigits' _ List.mem_cons_self) hclose
  | cons d digits ih =>
    cases digits' with
    | nil =>
      obtain ⟨rfl, -⟩ := List.cons.inj h
      exact absurd (hdigits _ List.mem_cons_self) hclose
    | cons e digits' =>
      obtain ⟨rfl, hrest⟩ := List.cons.inj h
      obtain ⟨rfl, hr⟩ := ih (fun d hd => hdigits d (List.mem_cons_of_mem _ hd))
        (fun d hd => hdigits' d (List.mem_cons_of_mem _ hd)) hrest
      exact ⟨rfl, hr⟩

theorem of_char (hc : IsOrdinary c) (h : Worded (c :: s)) : Worded s := by
  generalize hw : c :: s = w at h
  cases h with
  | nil => cases hw
  | char _ h =>
    obtain ⟨-, rfl⟩ := List.cons.inj hw
    exact h
  | number _ _ =>
    obtain ⟨rfl, -⟩ := List.cons.inj hw
    exact absurd hc (by decide)

theorem of_number (hdigits : ∀ d ∈ digits, IsOrdinary d)
    (h : Worded ('\x7b' :: (digits ++ '\x7d' :: s))) : Worded s := by
  generalize hw : '\x7b' :: (digits ++ '\x7d' :: s) = w at h
  cases h with
  | nil => cases hw
  | char hc _ =>
    obtain ⟨rfl, -⟩ := List.cons.inj hw
    exact absurd hc (by decide)
  | number hdigits' h =>
    obtain ⟨-, rfl⟩ := number_inj hdigits hdigits' (List.cons.inj hw).2
    exact h

/-- What goes on a text of this kind as another one does not follow a name. -/
theorem of_append (hs : Worded s) (h : Worded (s ++ c :: t)) :
    followsReference c = false ∧ isBlank c = false := by
  induction hs with
  | nil =>
    cases h with
    | char hc _ => exact ⟨hc.2, hc.not_blank⟩
    | number _ _ => decide
  | char hd _ ih => exact ih (of_char hd h)
  | number hdigits _ ih =>
    rw [List.cons_append, List.append_assoc, List.cons_append] at h
    exact ih (of_number hdigits h)

end Worded

/-- No two places of a name that are caught overlap. -/
theorem WrittenName.standsAlone (n : WrittenName) : StandsAlone n.chars := by
  refine ⟨n.chars_ne_nil, fun x g v hname hg hv => ?_⟩
  obtain ⟨-, digits, r, rfl, hdigits⟩ := n.worded.of_opens hname hg
  refine n.worded.not_close hdigits (List.IsPrefix.trans ⟨r, ?_⟩ hv)
  rw [List.append_assoc, List.singleton_append]

theorem WrittenName.dot_not_mem (n : WrittenName) {g : Char} (hg : opensReference g = true) :
    '.' ∉ g :: n.chars := by
  intro hdot
  rcases List.mem_cons.mp hdot with rfl | hdot
  · exact absurd hg (by decide)
  · exact n.worded.dot_not_mem hdot

end Trellis.Output
