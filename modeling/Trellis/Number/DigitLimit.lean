/-!
# The length of whole numbers

Whole numbers are read exactly, up to a number of digits. A longer one is no malformed text but a
fault of its own, which ends the reading.
-/

namespace Trellis.Number

/-- The number of digits that a whole number can have. -/
def digitLimit : Nat := 4300

/-- A whole number of too many digits. -/
structure TooManyDigits where
  digits : Nat
  deriving DecidableEq, Repr

/-- The fault in words. -/
def TooManyDigits.message (fault : TooManyDigits) : String :=
  "Exceeds the limit (" ++ toString digitLimit ++
    " digits) for integer string conversion: value has " ++ toString fault.digits ++
    " digits; use sys.set_int_max_str_digits() to increase the limit"

/-- A number of so many digits can be read. -/
def checkDigits (count : Nat) : Except TooManyDigits Unit :=
  if digitLimit < count then .error ⟨count⟩ else .ok ()

end Trellis.Number
