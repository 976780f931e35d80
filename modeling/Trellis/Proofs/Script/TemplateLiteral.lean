import Mathlib.Algebra.GroupWithZero.Nat
import Mathlib.Data.List.Basic
import Trellis.Json.Parse
import Trellis.Proofs.Script.Code

/-!
# Reading template literals

What a template literal stands for: the chunks of its text as UTF-16 units, escapes replaced by what
they mean and line ends made one, and the code of its substitutions.

* `readTemplate` reads a template literal from its first mark to its last; there is no value where
  an escape is malformed, or where a substitution or the literal is not closed.
* `Pieces.cost` is how many characters a literal takes at least, for given pieces: `cost_le`. Where
  a text has fewer, it is no literal of these pieces, whatever it reads as.
-/

namespace Trellis.Script

open Trellis.TypeScript

/-! ## Texts with substitutions -/

/-- A text with substitutions: its first chunk, then each substitution with the chunk behind it. -/
structure Pieces (α : Type) where
  first : List α
  rest : List (List Char × List α)
  deriving DecidableEq, Repr

namespace Pieces

variable {α β : Type}

/-- The substitutions, from left to right. -/
def substitutions (p : Pieces α) : List (List Char) := p.rest.map (·.1)

/-- The chunks before, between and behind the substitutions. -/
def chunks (p : Pieces α) : List (List α) := p.first :: p.rest.map (·.2)

/-- Text before the first chunk. -/
def lead (text : List α) (p : Pieces α) : Pieces α := { p with first := text ++ p.first }

/-- A substitution before the first chunk. -/
def substitute (code : List Char) (p : Pieces α) : Pieces α := ⟨[], (code, p.first) :: p.rest⟩

/-- The pieces with their text in another encoding. -/
def encode (f : α → List β) (p : Pieces α) : Pieces β :=
  ⟨p.first.flatMap f, p.rest.map fun (code, chunk) => (code, chunk.flatMap f)⟩

end Pieces

/-! ## Reading -/

/-- The UTF-16 units of a code point. -/
def units (n : Nat) : List Nat :=
  if n < 0x10000 then [n]
  else [0xD800 + (n - 0x10000) / 0x400, 0xDC00 + (n - 0x10000) % 0x400]

/-- The number that hexadecimal digits write. -/
def hexNumber? (digits : List Char) : Option Nat :=
  if digits.isEmpty then none
  else (digits.mapM Json.hexValue?).map fun values => values.foldl (fun n k => 16 * n + k) 0

/-- The single characters that stand for control characters behind a backslash. -/
def controlEscapes : List (Char × Nat) :=
  [('b', 8), ('t', 9), ('n', 10), ('v', 11), ('f', 12), ('r', 13)]

/-- What the escape before these characters stands for, and how many of them it takes. A line end
stands for nothing. -/
def escape? : List Char → Option (List Nat × Nat)
  | [] => none
  | '\r' :: '\n' :: _ => some ([], 2)
  | 'x' :: a :: b :: _ => (hexNumber? [a, b]).map fun n => ([n], 3)
  | 'u' :: '\x7b' :: cs =>
    let digits := cs.takeWhile (· != '\x7d')
    if digits.length = cs.length then none
    else
      (hexNumber? digits).bind fun n =>
        if n ≤ 0x10FFFF then some (units n, digits.length + 3) else none
  | 'u' :: a :: b :: c :: d :: _ => (hexNumber? [a, b, c, d]).map fun n => ([n], 5)
  | c :: cs =>
    if Lexer.isLineEnd c then some ([], 1)
    else if c == 'x' || c == 'u' then none
    else if c.isDigit then
      if c == '0' && !cs.head?.any Char.isDigit then some ([0], 1) else none
    else
      match controlEscapes.lookup c with
      | some n => some ([n], 1)
      | none => some (units c.toNat, 1)

/-- Reads the text of a template literal up to its closing mark, behind which nothing may stand.
The first `skip` characters have been read with what stands before them. -/
def readFrom : Nat → List Char → Option (Pieces Nat)
  | _, [] => none
  | skip + 1, _ :: cs => readFrom skip cs
  | 0, c :: cs =>
    if c = '\x60' then if cs.isEmpty then some ⟨[], []⟩ else none
    else if c = '\\' then
      (escape? cs).bind fun (text, taken) => (readFrom taken cs).map (.lead text)
    else if c = '$' ∧ cs.head? = some '\x7b' then
      (codeLength {} (cs.drop 1)).bind fun taken =>
        (readFrom (taken + 2) cs).map (.substitute ((cs.drop 1).take taken))
    else if c = '\r' then
      (readFrom (if cs.head? = some '\n' then 1 else 0) cs).map (.lead [10])
    else (readFrom 0 cs).map (.lead (units c.toNat))

/-- What a template literal stands for. -/
def readTemplate : List Char → Option (Pieces Nat)
  | '\x60' :: cs => readFrom 0 cs
  | _ => none

theorem readFrom_skip (skip : Nat) (cs : List Char) :
    readFrom skip cs = readFrom 0 (cs.drop skip) := by
  induction cs generalizing skip with
  | nil => cases skip <;> rfl
  | cons c cs ih =>
    cases skip with
    | zero => rfl
    | succ skip => rw [readFrom, ih, List.drop_succ_cons]

/-! ## How long a literal is -/

/-- The characters that a unit takes at least. Backslashes, closing marks and carriage returns take
an escape, and the second half of a surrogate pair is in the character of the first. -/
def unitCost (u : Nat) : Nat :=
  if u = 13 ∨ u = 92 ∨ u = 96 then 2 else if Json.isLowSurrogate u then 0 else 1

/-- The characters that a chunk takes at least. A dollar sign before an opening brace takes an
escape, or the brace does. -/
def chunkCost : List Nat → Nat
  | [] => 0
  | u :: us => unitCost u + (if u = 36 ∧ us.head? = some 123 then 1 else 0) + chunkCost us

/-- The characters that pieces take at least in a template literal, besides its marks. -/
def Pieces.cost (p : Pieces Nat) : Nat :=
  chunkCost p.first + (p.rest.map fun row => 3 + row.1.length + chunkCost row.2).sum

/-- The character that a chunk takes beyond its cost, if it starts with a brace that is written as
an escape. -/
def braceCost (us : List Nat) (cs : List Char) : Nat :=
  if us.head? = some 123 ∧ cs.head? ≠ some '\x7b' then 1 else 0

variable {us : List Nat} {cs : List Char}

theorem braceCost_le (us : List Nat) (cs : List Char) : braceCost us cs ≤ 1 := by
  rw [braceCost]
  split <;> omega

theorem braceCost_of_head (h : us.head? ≠ some 123) : braceCost us cs = 0 :=
  if_neg fun hhead => h hhead.1

theorem chunkCost_cons (u : Nat) (us : List Nat) : chunkCost (u :: us) =
    unitCost u + (if u = 36 ∧ us.head? = some 123 then 1 else 0) + chunkCost us := rfl

theorem unitCost_le (u : Nat) : unitCost u ≤ 2 := by
  rw [unitCost]
  split_ifs <;> omega

/-- No unit takes more than an escape of two characters. -/
theorem chunkCost_cons_le (u : Nat) (us : List Nat) (cs : List Char) :
    chunkCost (u :: us) + braceCost (u :: us) cs ≤ 2 + chunkCost us := by
  rw [chunkCost_cons]
  by_cases hmark : u = 36 ∨ u = 123
  · have hunit : unitCost u = 1 := by rcases hmark with rfl | rfl <;> rfl
    have hbrace := braceCost_le (u :: us) cs
    rcases hmark with rfl | rfl
    · rw [braceCost_of_head (by simp), hunit]
      split_ifs <;> omega
    · rw [if_neg (by simp), hunit]
      omega
  · have := unitCost_le u
    rw [not_or] at hmark
    rw [braceCost_of_head (by simpa using hmark.2), if_neg (fun h => hmark.1 h.1)]
    omega

/-- Units of characters beyond the basic plane take no more. -/
theorem chunkCost_units_le (n : Nat) (us : List Nat) (cs : List Char) :
    chunkCost (units n ++ us) + braceCost (units n ++ us) cs ≤ 2 + chunkCost us := by
  rw [units]
  split
  · exact chunkCost_cons_le n us cs
  · have hlow : unitCost (0xDC00 + (n - 0x10000) % 0x400) = 0 := by
      have := Nat.mod_lt (n - 0x10000) (y := 0x400) (by omega)
      rw [unitCost, if_neg (by omega), if_pos]
      simp only [Json.isLowSurrogate, Bool.and_eq_true, decide_eq_true_eq]
      omega
    have hhigh : unitCost (0xD800 + (n - 0x10000) / 0x400) ≤ 1 := by
      rw [unitCost, if_neg (by omega)]
      split <;> omega
    rw [List.cons_append, List.cons_append, List.nil_append, chunkCost_cons, chunkCost_cons, hlow,
      braceCost_of_head (by simp; omega), if_neg (by omega), if_neg (by omega)]
    omega

/-- A character that needs no escape takes one character. -/
theorem chunkCost_char {c : Char} (hreturn : c ≠ '\r') (hslash : c ≠ '\\') (hmark : c ≠ '\x60')
    (us : List Nat) : chunkCost (units c.toNat ++ us) =
      1 + (if c = '$' ∧ us.head? = some 123 then 1 else 0) + chunkCost us := by
  have hcode : ∀ d : Char, c = d ↔ c.toNat = d.toNat := fun d => Char.toNat_inj.symm
  have hvalid : c.toNat < 0xD800 ∨ 0xDFFF < c.toNat ∧ c.toNat < 0x110000 := c.valid
  have hhalf : ∀ n, Json.isLowSurrogate n = decide (0xDC00 ≤ n ∧ n ≤ 0xDFFF) := by
    intro n
    simp [Json.isLowSurrogate]
  rw [Ne, hcode] at hreturn hslash hmark
  change c.toNat ≠ 13 at hreturn
  change c.toNat ≠ 92 at hslash
  change c.toNat ≠ 96 at hmark
  rw [units]
  split
  · have hunit : unitCost c.toNat = 1 := by
      rw [unitCost, if_neg (by omega), hhalf, if_neg (by rw [decide_eq_true_eq]; omega)]
    have hdollar : (c.toNat = 36 ∧ us.head? = some 123) ↔ (c = '$' ∧ us.head? = some 123) :=
      and_congr_left' (hcode '$').symm
    rw [List.singleton_append, chunkCost_cons, hunit, if_congr hdollar rfl rfl]
  · have hlow : unitCost (0xDC00 + (c.toNat - 0x10000) % 0x400) = 0 := by
      rw [unitCost, if_neg (by omega), hhalf, if_pos (by rw [decide_eq_true_eq]; omega)]
    have hhigh : unitCost (0xD800 + (c.toNat - 0x10000) / 0x400) = 1 := by
      rw [unitCost, if_neg (by omega), hhalf, if_neg (by rw [decide_eq_true_eq]; omega)]
    have hdollar : c ≠ '$' := by
      rw [Ne, hcode]
      change c.toNat ≠ 36
      omega
    rw [List.cons_append, List.cons_append, List.nil_append, chunkCost_cons, chunkCost_cons, hlow,
      hhigh, if_neg (by omega), if_neg (by omega), if_neg (fun h => hdollar h.1), Nat.add_zero,
      Nat.zero_add]

theorem eq_brace_of_head_units {c : Char} {us : List Nat}
    (h : (units c.toNat ++ us).head? = some 123) : c = '\x7b' := by
  rw [units] at h
  split at h
  · exact Char.toNat_inj.mp (Option.some.inj h)
  · have hfirst := Option.some.inj h
    omega

/-- An escape takes characters, and stands for nothing, for one unit or for one code point. -/
theorem text_of_escape? {text : List Nat} {taken : Nat} (h : escape? cs = some (text, taken)) :
    0 < taken ∧ (text = [] ∨ ∃ n, text = [n] ∨ text = units n) := by
  unfold escape? at h
  split at h
  · cases h
  · cases h
    exact ⟨by omega, .inl rfl⟩
  · obtain ⟨n, -, heq⟩ := Option.map_eq_some_iff.mp h
    cases heq
    exact ⟨by omega, .inr ⟨n, .inl rfl⟩⟩
  · simp only [Option.bind_eq_some_iff, Option.ite_none_left_eq_some,
      Option.ite_none_right_eq_some] at h
    obtain ⟨-, n, -, -, heq⟩ := h
    cases heq
    exact ⟨by omega, .inr ⟨n, .inr rfl⟩⟩
  · obtain ⟨n, -, heq⟩ := Option.map_eq_some_iff.mp h
    cases heq
    exact ⟨by omega, .inr ⟨n, .inl rfl⟩⟩
  · next c cs _ _ _ _ =>
    split_ifs at h
    · cases h
      exact ⟨by omega, .inl rfl⟩
    · cases h
      exact ⟨by omega, .inr ⟨0, .inl rfl⟩⟩
    · split at h
      · next n _ =>
        cases h
        exact ⟨by omega, .inr ⟨n, .inl rfl⟩⟩
      · cases h
        exact ⟨by omega, .inr ⟨c.toNat, .inr rfl⟩⟩

/-- What an escape stands for takes no more than two characters. -/
theorem chunkCost_escape_le {text : List Nat} {taken : Nat} (h : escape? cs = some (text, taken))
    (us : List Nat) (ds : List Char) :
    chunkCost (text ++ us) + braceCost (text ++ us) ds ≤ 2 + chunkCost us := by
  obtain ⟨-, rfl | ⟨n, rfl | rfl⟩⟩ := text_of_escape? h
  · have := braceCost_le us ds
    rw [List.nil_append]
    omega
  · exact chunkCost_cons_le n us ds
  · exact chunkCost_units_le n us ds

theorem cost_lead (text : List Nat) (p : Pieces Nat) : (p.lead text).cost + chunkCost p.first =
    p.cost + chunkCost (text ++ p.first) := by
  simp only [Pieces.cost, Pieces.lead]
  omega

theorem cost_substitute (code : List Char) (p : Pieces Nat) :
    (p.substitute code).cost = 3 + code.length + p.cost := by
  simp only [Pieces.cost, Pieces.substitute, chunkCost, List.map_cons, List.sum_cons]
  omega

/-- **A literal is not shorter than the cost of its pieces.** -/
theorem cost_le {skip : Nat} {p : Pieces Nat} (h : readFrom skip cs = some p) :
    p.cost + 1 + braceCost p.first (cs.drop skip) ≤ (cs.drop skip).length := by
  fun_induction readFrom skip cs generalizing p with
  | case1 => cases h
  | case2 skip c cs ih => exact ih h
  | case3 cs hend =>
    cases h
    exact Nat.le_add_left 1 cs.length
  | case4 => cases h
  | case5 cs _ ih =>
    obtain ⟨⟨text, taken⟩, hescape, h⟩ := Option.bind_eq_some_iff.mp h
    obtain ⟨q, hq, rfl⟩ := Option.map_eq_some_iff.mp h
    have hrest := ih taken hq
    have htaken := (text_of_escape? hescape).1
    have htext := chunkCost_escape_le hescape q.first ('\\' :: cs)
    have hcost := cost_lead text q
    rw [List.length_drop] at hrest
    simp only [List.drop_zero, List.length_cons, Pieces.lead] at hcost ⊢
    omega
  | case6 c cs _ _ hopen ih =>
    obtain ⟨taken, -, h⟩ := Option.bind_eq_some_iff.mp h
    obtain ⟨q, hq, rfl⟩ := Option.map_eq_some_iff.mp h
    have hrest := ih taken hq
    have hcode : ((cs.drop 1).take taken).length ≤ taken := List.length_take_le taken _
    rw [List.length_drop] at hrest
    rw [cost_substitute, braceCost_of_head (by simp [Pieces.substitute]), List.drop_zero,
      List.length_cons]
    omega
  | case7 cs _ _ _ ih =>
    obtain ⟨q, hq, rfl⟩ := Option.map_eq_some_iff.mp h
    have hrest := ih hq
    have hbreak : chunkCost ([10] ++ q.first) = 1 + chunkCost q.first := rfl
    have hcost := cost_lead [10] q
    rw [List.length_drop] at hrest
    rw [braceCost_of_head (by simp [Pieces.lead]), List.drop_zero, List.length_cons]
    omega
  | case8 c cs hmark hslash hopen hreturn ih =>
    obtain ⟨q, hq, rfl⟩ := Option.map_eq_some_iff.mp h
    have hrest := ih hq
    have hchar := chunkCost_char hreturn hslash hmark q.first
    have hcost := cost_lead (units c.toNat) q
    have hbrace : braceCost (q.lead (units c.toNat)).first (c :: cs) = 0 :=
      if_neg fun h => h.2 (congrArg some (eq_brace_of_head_units h.1))
    have hdollar : (if c = '$' ∧ q.first.head? = some 123 then 1 else 0) ≤
        braceCost q.first cs := by
      rw [braceCost]
      split_ifs with hc hq hq
      · omega
      · exact absurd ⟨hc.2, fun hhead => hopen ⟨hc.1, hhead⟩⟩ hq
      · omega
      · omega
    simp only [List.drop_zero, List.length_cons] at hrest ⊢
    omega

end Trellis.Script
