import Trellis.Number.Binary

/-!
# The shortest text of a number

* `Finite.shortest` is the decimal with the fewest digits that reads back as the number, and of
  those the nearest one.
* `Binary.text` lays it out: positionally if the first digit stands between the fourth place after
  the point and the sixteenth before it, otherwise with an exponent of two digits at least.
-/

namespace Trellis.Number

/-- The exact decimal value of a finite number. -/
def Finite.exact (x : Finite) : Decimal :=
  if 0 ≤ x.exponent then ⟨x.mantissa * twoTo x.exponent.toNat, 0⟩
  else ⟨x.mantissa * Nat.pow 5 (-x.exponent).toNat, x.exponent⟩

/-- The decimal of at most `count` digits that reads back and is nearest to the number, whose exact
value is `exact`; of two that are equally near, the even one. -/
def Finite.withDigits? (x : Finite) (exact : Decimal) (count : Nat) : Option Decimal :=
  let cut := digitCount exact.digits - count
  let unit := tenTo cut
  let below : Decimal := ⟨exact.digits / unit, exact.exponent + cut⟩
  let above : Decimal := ⟨exact.digits / unit + 1, exact.exponent + cut⟩
  let middle := (2 * below.digits + 1) * unit
  let nearer :=
    if 2 * exact.digits < middle then true
    else if middle < 2 * exact.digits then false
    else below.digits % 2 == 0
  match x.readsBack below, x.readsBack above with
  | true, true => some (if nearer then below else above)
  | true, false => some below
  | false, true => some above
  | false, false => none

/-- The digits without the zeros at their end, which go into the exponent; `fuel` bounds their
number. -/
def Decimal.trimZeros : Nat → Decimal → Decimal
  | 0, d => d
  | fuel + 1, d =>
    if d.digits ≠ 0 ∧ d.digits % 10 = 0 then trimZeros fuel ⟨d.digits / 10, d.exponent + 1⟩ else d

/-- The decimal with the fewest digits that reads back as the number. -/
def Finite.shortest (x : Finite) : Decimal :=
  let exact := x.exact
  let found := (List.range 17).findSome? fun n => x.withDigits? exact (n + 1)
  let d := found.getD exact
  d.trimZeros (digitCount d.digits)

/-- Decimal digits as characters. -/
def digitChars (n : Nat) : List Char := Nat.toDigits 10 n

/-- An exponent with its sign and at least two digits. -/
def exponentText (e : Int) : List Char :=
  let digits := digitChars e.natAbs
  let padded := if digits.length < 2 then '0' :: digits else digits
  (if e < 0 then '-' else '+') :: padded

/-- The text of a positive decimal. -/
def Decimal.layout (d : Decimal) : List Char :=
  let digits := digitChars d.digits
  -- The place of the decimal point, counted from the first digit.
  let point : Int := (digits.length : Int) + d.exponent
  if -4 < point ∧ point ≤ 16 then
    if point ≤ 0 then '0' :: '.' :: List.replicate (-point).toNat '0' ++ digits
    else if (digits.length : Int) ≤ point then
      digits ++ List.replicate (point.toNat - digits.length) '0' ++ ['.', '0']
    else digits.take point.toNat ++ '.' :: digits.drop point.toNat
  else
    let mantissa :=
      match digits with
      | first :: second :: rest => first :: '.' :: second :: rest
      | single => single
    mantissa ++ 'e' :: exponentText (point - 1)

/-- The shortest text that reads back as the number. -/
def Binary.text : Binary → String
  | .nan => "nan"
  | .infinity negative => if negative then "-inf" else "inf"
  | .finite negative x =>
    let body := if x.mantissa = 0 then ['0', '.', '0'] else x.shortest.layout
    String.ofList (if negative then '-' :: body else body)

end Trellis.Number
