import Mathlib.Algebra.GroupWithZero.Nat
import Mathlib.Order.Nat
import Trellis.Proofs.Script.TemplateLiteral
import Trellis.Text.Quoted

/-!
# Reading string literals

What a string literal in double quotes stands for: UTF-16 units, escapes replaced by what they mean.
A line end inside of it needs an escape. A string in markup has no escapes, but references.

* `readString?` reads a string literal at the start of a text and gives what stands behind it.
* `readString?_jsonQuote`: a text written as a JSON string is read as itself.
* `readString?_plain`: a text without quotes and backslashes between quotes is read as itself, if it
  is on one line. Otherwise nothing is.
* `decode` is what a string in markup stands for.
-/

namespace Trellis.Script

open Trellis.Text

/-- The UTF-16 units of a text. -/
def textUnits (cs : List Char) : List Nat := cs.flatMap fun c => units c.toNat

/-- Units before what has been read. -/
def leadUnits (text : List Nat) (r : List Nat × List Char) : List Nat × List Char :=
  (text ++ r.1, r.2)

/-- Reads the text of a string literal up to its closing mark. The first `skip` characters have been
read with what stands before them. -/
def readStringFrom : Nat → List Char → Option (List Nat × List Char)
  | _, [] => none
  | skip + 1, _ :: cs => readStringFrom skip cs
  | 0, c :: cs =>
    if c = '"' then some ([], cs)
    else if c = '\\' then
      (escape? cs).bind fun (text, taken) => (readStringFrom taken cs).map (leadUnits text)
    else if c = '\n' ∨ c = '\r' then none
    else (readStringFrom 0 cs).map (leadUnits (units c.toNat))

/-- What the string literal at the start of a text stands for, and what stands behind it. -/
def readString? : List Char → Option (List Nat × List Char)
  | '"' :: cs => readStringFrom 0 cs
  | _ => none

variable {c : Char} {cs rest : List Char}

theorem readStringFrom_skip (skip : Nat) (cs : List Char) :
    readStringFrom skip cs = readStringFrom 0 (cs.drop skip) := by
  induction cs generalizing skip with
  | nil => cases skip <;> rfl
  | cons c cs ih =>
    cases skip with
    | zero => rfl
    | succ skip => rw [readStringFrom, ih, List.drop_succ_cons]

/-! ## Single characters -/

/-- The character stands for itself in a string literal. -/
def IsPlain (c : Char) : Prop := c ≠ '"' ∧ c ≠ '\\' ∧ c ≠ '\n' ∧ c ≠ '\r'

theorem readStringFrom_plain (hc : IsPlain c) (cs : List Char) :
    readStringFrom 0 (c :: cs) = (readStringFrom 0 cs).map (leadUnits (units c.toNat)) := by
  obtain ⟨hquote, hslash, hfeed, hreturn⟩ := hc
  rw [readStringFrom, if_neg hquote, if_neg hslash, if_neg (not_or.mpr ⟨hfeed, hreturn⟩)]

theorem readStringFrom_escape {text : List Nat} {e : List Char}
    (he : escape? (e ++ cs) = some (text, e.length)) :
    readStringFrom 0 ('\\' :: (e ++ cs)) = (readStringFrom 0 cs).map (leadUnits text) := by
  rw [readStringFrom, if_neg (by decide), if_pos rfl, he, Option.bind_some]
  dsimp only
  rw [readStringFrom_skip, List.drop_left]

/-! ## Hexadecimal numbers -/

theorem hexValue?_digitChar {n : Nat} (hn : n < 16) :
    Json.hexValue? (Nat.digitChar n) = some n := by
  revert n
  decide

/-- One more digit. -/
theorem hexNumber?_concat {digits : List Char} {m k : Nat} (hm : hexNumber? digits = some m)
    (hk : k < 16) : hexNumber? (digits ++ [Nat.digitChar k]) = some (16 * m + k) := by
  rw [hexNumber?] at hm ⊢
  split at hm
  · cases hm
  · obtain ⟨values, hvalues, rfl⟩ := Option.map_eq_some_iff.mp hm
    simp [List.mapM_append, hvalues, hexValue?_digitChar hk]

/-- The last digit is the rest of the number, and the others are its quotient. -/
theorem hex_succ {width : Nat} (hwidth : 0 < width) (n : Nat) :
    hex (width + 1) n = hex width (n / 16) ++ [Nat.digitChar (n % 16)] := by
  by_cases hn : n < 16
  · have hzero : n / 16 = 0 := Nat.div_eq_of_lt hn
    obtain ⟨w, rfl⟩ := Nat.exists_eq_succ_of_ne_zero hwidth.ne'
    rw [hex, hex, hzero, Nat.mod_eq_of_lt hn, Nat.toDigits_of_lt_base hn]
    simp [List.replicate_succ']
  · rw [hex, hex, Nat.toDigits_of_base_le (by decide) (Nat.not_lt.mp hn)]
    simp

/-- A number that fits is read back from its digits, as many as are asked for. -/
theorem hexNumber?_hex {width n : Nat} (hn : n < 16 ^ (width + 1)) :
    hexNumber? (hex (width + 1) n) = some n ∧ (hex (width + 1) n).length = width + 1 := by
  induction width generalizing n with
  | zero =>
    have hsmall : n < 16 := hn
    rw [hex, Nat.toDigits_of_lt_base hsmall]
    exact ⟨by simp [hexNumber?, hexValue?_digitChar hsmall], rfl⟩
  | succ width ih =>
    obtain ⟨hnumber, hlength⟩ := ih (n := n / 16) (by omega)
    rw [hex_succ (Nat.succ_pos width), List.length_append, hlength]
    refine ⟨?_, rfl⟩
    rw [hexNumber?_concat hnumber (Nat.mod_lt n (by decide)), Nat.div_add_mod]

/-- The escape of a unit. -/
theorem escape?_unitEscape {n : Nat} (hn : n < 0x10000) (cs : List Char) :
    escape? ('u' :: (hex 4 n ++ cs)) = some ([n], ('u' :: hex 4 n).length) := by
  obtain ⟨hnumber, hlength⟩ : hexNumber? (hex 4 n) = some n ∧ (hex 4 n).length = 4 :=
    hexNumber?_hex hn
  obtain ⟨a, b, c, d, hdigits⟩ : ∃ a b c d, hex 4 n = [a, b, c, d] := by
    match hex 4 n, hlength with
    | [a, b, c, d], _ => exact ⟨a, b, c, d, rfl⟩
  rw [hdigits] at hnumber ⊢
  have hbrace : a ≠ '\x7b' := by
    rintro rfl
    cases hnumber
  rw [List.cons_append, List.cons_append, List.cons_append, List.cons_append, List.nil_append,
    escape?]
  · rw [hnumber]
    rfl
  · exact fun h => absurd h hbrace

theorem readStringFrom_unitEscape {n : Nat} (hn : n < 0x10000) (cs : List Char) :
    readStringFrom 0 (unitEscape n ++ cs) = (readStringFrom 0 cs).map (leadUnits [n]) :=
  readStringFrom_escape (escape?_unitEscape hn cs)

/-! ## Texts -/

theorem leadUnits_leadUnits (s t : List Nat) (r : Option (List Nat × List Char)) :
    (r.map (leadUnits t)).map (leadUnits s) = r.map (leadUnits (s ++ t)) := by
  cases r with
  | none => rfl
  | some r => simp [leadUnits]

/-- Each character of a JSON string stands for itself. -/
theorem readStringFrom_jsonEscape (c : Char) (cs : List Char) :
    readStringFrom 0 (jsonEscape c ++ cs) =
      (readStringFrom 0 cs).map (leadUnits (units c.toNat)) := by
  have hcode {n : Nat} (h : (c.toNat == n) = true) : c = Char.ofNat n := by
    rw [← beq_iff_eq.mp h, Char.ofNat_toNat]
  rw [jsonEscape]
  split_ifs with hquote hslash hfeed hreturn htab hback hform hascii hbasic
  · rw [beq_iff_eq.mp hquote]
    exact readStringFrom_escape (e := ['"']) rfl
  · rw [beq_iff_eq.mp hslash]
    exact readStringFrom_escape (e := ['\\']) rfl
  · rw [beq_iff_eq.mp hfeed]
    exact readStringFrom_escape (e := ['n']) rfl
  · rw [beq_iff_eq.mp hreturn]
    exact readStringFrom_escape (e := ['r']) rfl
  · rw [beq_iff_eq.mp htab]
    exact readStringFrom_escape (e := ['t']) rfl
  · rw [hcode hback]
    exact readStringFrom_escape (e := ['b']) rfl
  · rw [hcode hform]
    exact readStringFrom_escape (e := ['f']) rfl
  · refine readStringFrom_plain ⟨?_, ?_, ?_, ?_⟩ cs
    · simpa using hquote
    · simpa using hslash
    · simpa using hfeed
    · simpa using hreturn
  · rw [readStringFrom_unitEscape hbasic, units, if_pos hbasic]
  · have hvalid : c.toNat < 0xD800 ∨ 0xDFFF < c.toNat ∧ c.toNat < 0x110000 := c.valid
    have hhigh : 0xD800 + (c.toNat - 0x10000) / 0x400 < 0x10000 := by omega
    have hlow : 0xDC00 + (c.toNat - 0x10000) % 0x400 < 0x10000 := by omega
    dsimp only
    rw [List.append_assoc, readStringFrom_unitEscape hhigh, readStringFrom_unitEscape hlow,
      leadUnits_leadUnits, units, if_neg hbasic]
    rfl

theorem readStringFrom_flatMap {f : Char → List Char} {s : List Char} (cs : List Char)
    (hf : ∀ c ∈ s, ∀ cs, readStringFrom 0 (f c ++ cs) =
      (readStringFrom 0 cs).map (leadUnits (units c.toNat))) :
    readStringFrom 0 (s.flatMap f ++ cs) =
      (readStringFrom 0 cs).map (leadUnits (textUnits s)) := by
  induction s with
  | nil =>
    cases h : readStringFrom 0 cs with
    | none => simp [h]
    | some r => simp [h, leadUnits, textUnits]
  | cons c s ih =>
    obtain ⟨hc, hs⟩ := List.forall_mem_cons.mp hf
    rw [List.flatMap_cons, List.append_assoc, hc, ih hs, leadUnits_leadUnits]
    rfl

/-- **A JSON string is read as the text it was made of.** -/
theorem readString?_jsonQuote (s : String) (rest : List Char) :
    readString? ((jsonQuote s).toList ++ rest) = some (textUnits s.toList, rest) := by
  rw [jsonQuote, String.toList_ofList, List.cons_append, List.cons_append, List.append_assoc,
    readString?, readStringFrom_flatMap _ fun c _ => readStringFrom_jsonEscape c]
  simp [readStringFrom, leadUnits]

/-- The text has no line end that ends a string literal. -/
def OneLine (cs : List Char) : Prop := '\n' ∉ cs ∧ '\r' ∉ cs

instance (cs : List Char) : Decidable (OneLine cs) :=
  inferInstanceAs (Decidable (_ ∧ _))

/-- **A text between quotes is read as itself if it is on one line.** -/
theorem readString?_plain {s : List Char} (hquote : '"' ∉ s) (hslash : '\\' ∉ s)
    (rest : List Char) : readString? ('"' :: (s ++ '"' :: rest)) =
      if OneLine s then some (textUnits s, rest) else none := by
  rw [readString?]
  induction s with
  | nil => rfl
  | cons c s ih =>
    obtain ⟨hc, hquote⟩ := not_or.mp (mt List.mem_cons.mpr hquote)
    obtain ⟨hd, hslash⟩ := not_or.mp (mt List.mem_cons.mpr hslash)
    by_cases hend : c = '\n' ∨ c = '\r'
    · have hlines : ¬ OneLine (c :: s) := by
        rintro ⟨hfeed, hreturn⟩
        rcases hend with rfl | rfl
        · exact hfeed List.mem_cons_self
        · exact hreturn List.mem_cons_self
      rw [if_neg hlines, List.cons_append, readStringFrom, if_neg (Ne.symm hc),
        if_neg (Ne.symm hd), if_pos hend]
    · obtain ⟨hfeed, hreturn⟩ := not_or.mp hend
      have hlines : OneLine (c :: s) ↔ OneLine s := by
        simp [OneLine, Ne.symm hfeed, Ne.symm hreturn]
      rw [List.cons_append, readStringFrom_plain ⟨Ne.symm hc, Ne.symm hd, hfeed, hreturn⟩,
        ih hquote hslash, if_congr hlines rfl rfl]
      split
      · rfl
      · rfl

/-! ## Strings in markup -/

/-- The number that decimal digits write. -/
def decimalNumber? (digits : List Char) : Option Nat :=
  if digits.isEmpty || !digits.all Char.isDigit then none
  else some (digits.foldl (fun n d => 10 * n + (d.toNat - 48)) 0)

/-- What the reference before these characters stands for, and how many of them it takes. A
character is referred to by its number or by its name, which a table has. -/
def reference? (named : List Char → Option (List Nat)) (cs : List Char) :
    Option (List Nat × Nat) :=
  let name := cs.takeWhile (· != ';')
  let text :=
    match name with
    | '#' :: 'x' :: digits => (hexNumber? digits).map units
    | '#' :: digits => (decimalNumber? digits).map units
    | name => named name
  if name.length = cs.length then none else text.map fun us => (us, name.length + 1)

/-- The text of a string in markup with its references replaced; what refers to nothing is text. The
first `skip` characters belong to a reference before them. -/
def decodeFrom (named : List Char → Option (List Nat)) : Nat → List Char → List Nat
  | _, [] => []
  | skip + 1, _ :: cs => decodeFrom named skip cs
  | 0, c :: cs =>
    match if c = '&' then reference? named cs else none with
    | some (us, taken) => us ++ decodeFrom named taken cs
    | none => units c.toNat ++ decodeFrom named 0 cs

/-- What a string in markup stands for. -/
def decode (named : List Char → Option (List Nat)) (cs : List Char) : List Nat :=
  decodeFrom named 0 cs

end Trellis.Script
