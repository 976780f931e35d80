/-!
# Binary numbers

Numbers with a fraction are kept in the binary format of 64 bits: a mantissa of at most 53 bits
times a power of two, or infinity, or no number at all. All arithmetic is exact, on naturals.

* `Binary.ofDecimal` is the number nearest to a decimal, the one with the even mantissa of two that
  are equally near.
* `Finite.readsBack` says that a decimal is among those that round to a number.
-/

namespace Trellis.Number

/-- A decimal without a sign: `digits` times ten to the power `exponent`. -/
structure Decimal where
  digits : Nat
  exponent : Int
  deriving DecidableEq, Repr

/-- A finite number without a sign: `mantissa` times two to the power `exponent`. -/
structure Finite where
  mantissa : Nat
  exponent : Int
  deriving DecidableEq, Repr

/-- A number of the binary format. -/
inductive Binary where
  | finite (negative : Bool) (value : Finite)
  | infinity (negative : Bool)
  | nan
  deriving DecidableEq, Repr

/-- A power of two. -/
def twoTo (k : Nat) : Nat := Nat.pow 2 k

/-- A power of ten. -/
def tenTo (k : Nat) : Nat := Nat.pow 10 k

/-- The least exponent of the format. -/
def leastExponent : Int := -1074

/-- The greatest exponent of the format. -/
def greatestExponent : Int := 971

/-- `n / d` to the nearest natural, to the even one of two that are equally near. -/
def roundDiv (n d : Nat) : Nat :=
  let q := n / d
  let r := n % d
  if 2 * r < d ∨ (2 * r = d ∧ q % 2 = 0) then q else q + 1

/-- The exponent of the greatest power of two that is at most `n / d`. -/
def floorLog (n d : Nat) : Int :=
  let guess : Int := (Nat.log2 n : Int) - (Nat.log2 d : Int)
  if d * twoTo guess.toNat ≤ n * twoTo (-guess).toNat then guess else guess - 1

/-- The finite number nearest to the fraction `n / d`, if it is in range. -/
def Finite.ofFraction? (n d : Nat) : Option Finite :=
  if n = 0 then some ⟨0, leastExponent⟩
  else
    let order := floorLog n d - 52
    let e := if order < leastExponent then leastExponent else order
    let m := roundDiv (n * twoTo (-e).toNat) (d * twoTo e.toNat)
    let (m, e) := if m = twoTo 53 then (twoTo 52, e + 1) else (m, e)
    if e ≤ greatestExponent then some ⟨m, e⟩ else none

/-- Beyond this order of magnitude a decimal is out of range, and below its opposite it is zero. -/
def widestOrder : Int := 400

/-- The number of decimal digits. -/
def digitCount (n : Nat) : Nat := (Nat.toDigits 10 n).length

/-- The number nearest to a decimal. -/
def Binary.ofDecimal (negative : Bool) (d : Decimal) : Binary :=
  let order := (digitCount d.digits : Int) + d.exponent
  if d.digits = 0 ∨ order < -widestOrder then .finite negative ⟨0, leastExponent⟩
  else if widestOrder < order then .infinity negative
  else
    match Finite.ofFraction? (d.digits * tenTo d.exponent.toNat) (tenTo (-d.exponent).toNat) with
    | some value => .finite negative value
    | none => .infinity negative

/-! ## Reading back -/

/-- Compares `d` with `m` times two to the power `e`. -/
def Decimal.compareTo (d : Decimal) (m : Nat) (e : Int) : Ordering :=
  compare (d.digits * tenTo d.exponent.toNat * twoTo (-e).toNat)
    (m * twoTo e.toNat * tenTo (-d.exponent).toNat)

/-- The gap to the next smaller number is half the gap to the next greater one. -/
def Finite.isNarrowBelow (x : Finite) : Bool :=
  x.mantissa == twoTo 52 && decide (leastExponent < x.exponent)

/-- The decimal rounds to the number: it lies between the middles of the gaps to both neighbours,
the middles included if the mantissa is even. -/
def Finite.readsBack (x : Finite) (d : Decimal) : Bool :=
  let low := if x.isNarrowBelow then 4 * x.mantissa - 1 else 4 * x.mantissa - 2
  let high := 4 * x.mantissa + 2
  let closed := x.mantissa % 2 == 0
  let atLow := d.compareTo low (x.exponent - 2)
  let atHigh := d.compareTo high (x.exponent - 2)
  (atLow == .gt || (closed && atLow == .eq)) && (atHigh == .lt || (closed && atHigh == .eq))

end Trellis.Number
