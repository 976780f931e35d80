import Trellis.Number.Binary

/-!
# Quantities

Numbers with units, as style sheets compute with them. All arithmetic is exact.

* A sum or a difference takes the unit of its left side; the right side is converted, and a side
  without a unit takes that of the other one.
* A product has the units of both sides, a quotient also units below the line; units that measure
  the same cancel each other.
* A quantity is written with at most five decimals, and only with a single unit.
-/

namespace Trellis.Style

open Trellis.Number

/-- A number with the units above and below the line. -/
structure Quantity where
  value : Rat
  units : List String := []
  per : List String := []
  /-- The zero before the point of a fraction is written. -/
  keepsZero : Bool := false
  deriving DecidableEq, Repr

/-! ## Units -/

/-- Units that measure the same, each in terms of the last one of its family. -/
def unitFamilies : List (List (String × Rat)) :=
  [[("in", mkRat 96 1), ("cm", mkRat 4800 127), ("mm", mkRat 480 127), ("pc", mkRat 16 1),
      ("pt", mkRat 4 3), ("px", mkRat 1 1)],
    [("s", mkRat 1000 1), ("ms", mkRat 1 1)],
    [("turn", mkRat 360 1), ("grad", mkRat 9 10), ("deg", mkRat 1 1)],
    [("kHz", mkRat 1000 1), ("Hz", mkRat 1 1)],
    [("dppx", mkRat 96 1), ("dpcm", mkRat 127 50), ("dpi", mkRat 1 1)]]

/-- What a quantity is multiplied by when its unit `old` becomes `new`. -/
def conversion? (old new : String) : Option Rat :=
  if old == new then some (mkRat 1 1)
  else unitFamilies.findSome? fun family => do
    pure (Rat.div (← family.lookup old) (← family.lookup new))

namespace Quantity

/-- The quantity has no unit. -/
def isBare (q : Quantity) : Bool := q.units.isEmpty && q.per.isEmpty

/-- Cancels one unit above the line by a unit below it: the factor and what is left below. -/
def cancelUnit (unit : String) : List String → Option (Rat × List String)
  | [] => none
  | other :: per =>
    match conversion? unit other with
    | some factor => some (factor, per)
    | none => (cancelUnit unit per).map fun (factor, per) => (factor, other :: per)

/-- Cancels the units above the line that have one that measures the same below it. -/
def cancel (q : Quantity) : Quantity :=
  q.units.foldl (fun (r : Quantity) unit =>
    match cancelUnit unit r.per with
    | some (factor, per) => { r with value := Rat.mul r.value factor, per }
    | none => { r with units := r.units ++ [unit] }) { q with units := [] }

/-! ## Arithmetic -/

/-- The value of `r` in the units of `q`, if they measure the same. -/
def valueIn? (q r : Quantity) : Option Rat :=
  if q.isBare || r.isBare then some r.value
  else
    match q.units, q.per, r.units, r.per with
    | [new], [], [old], [] => (conversion? old new).map (Rat.mul r.value)
    | _, _, _, _ => if q.units == r.units && q.per == r.per then some r.value else none

/-- Joins two quantities of one kind by an operation on their values. -/
def combine? (op : Rat → Rat → Rat) (q r : Quantity) : Option Quantity := do
  let value ← q.valueIn? r
  let named := if q.isBare then r else q
  pure { q with value := op q.value value, units := named.units, per := named.per }

/-- The sum. -/
def add? (q r : Quantity) : Option Quantity := combine? Rat.add q r

/-- The difference. -/
def sub? (q r : Quantity) : Option Quantity := combine? Rat.sub q r

/-- What is left of `x` after it is divided by `y`, with the sign of `y`. -/
def remainder (x y : Rat) : Rat := Rat.sub x (Rat.mul y (Rat.ofInt (Rat.div x y).floor))

/-- The remainder. -/
def mod? (q r : Quantity) : Option Quantity := combine? remainder q r

/-- The product. -/
def mul (q r : Quantity) : Quantity :=
  cancel { q with
    value := Rat.mul q.value r.value
    units := q.units ++ r.units
    per := q.per ++ r.per }

/-- The quotient. -/
def div (q r : Quantity) : Quantity :=
  cancel { q with
    value := Rat.div q.value r.value
    units := q.units ++ r.per
    per := q.per ++ r.units }

/-- The quantity with the opposite sign. -/
def negate (q : Quantity) : Quantity := { q with value := Rat.neg q.value }

end Quantity

/-! ## Text -/

/-- The natural nearest to a number that is not negative; a half goes up. -/
def nearest (x : Rat) : Nat := (Rat.add x (mkRat 1 2)).floor.toNat

/-- The digits of a fraction of `places` decimals, without zeros at the end. -/
def fractionDigits (places n : Nat) : List Char :=
  let digits := Nat.toDigits 10 n
  let digits := List.replicate (places - digits.length) '0' ++ digits
  (digits.reverse.dropWhile (· == '0')).reverse

/-- A number with at most `places` decimals. -/
def decimalText (places : Nat) (keepsZero : Bool) (x : Rat) : String :=
  let scaled := nearest (Rat.mul x.abs (mkRat (tenTo places) 1))
  let whole := scaled / tenTo places
  let fraction := fractionDigits places (scaled % tenTo places)
  let sign := if x.num < 0 && scaled != 0 then "-" else ""
  let head := if whole == 0 && !fraction.isEmpty && !keepsZero then "" else toString whole
  sign ++ head ++ (if fraction.isEmpty then "" else "." ++ String.ofList fraction)

/-- The quantity as text; none if it has more units than can be written. -/
def Quantity.text? (q : Quantity) : Option String :=
  let number := decimalText 5 q.keepsZero q.value
  match q.units, q.per with
  | [], [] => some number
  | [unit], [] => some (number ++ unit)
  | _, _ => none

end Trellis.Style
