import Trellis.Number.Binary

/-!
# JSON values

Whole numbers are exact and of any size; numbers with a fraction or an exponent are binary. The rows
of an object keep the order of their first appearance, and each name appears once.
-/

namespace Trellis.Json

open Trellis.Number

/-- A JSON value. -/
inductive Value where
  | null
  | bool (value : Bool)
  | int (value : Int)
  | real (value : Binary)
  | text (value : String)
  | list (items : List Value)
  | object (rows : List (String × Value))
  deriving Repr

namespace Value

/-- The rows of an object. -/
def rows? : Value → Option (List (String × Value))
  | .object rows => some rows
  | _ => none

/-- The value is absent. -/
def isNull : Value → Bool
  | .null => true
  | _ => false

end Value

/-- The value of a name among the rows of an object; null if there is none. -/
def field (rows : List (String × Value)) (name : String) : Value := (rows.lookup name).getD .null

end Trellis.Json
