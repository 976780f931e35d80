/-!
# Tables in insertion order

A table maps names to values and keeps the order in which the names were first put in. Putting a
name in again replaces its value and keeps its place.
-/

namespace Trellis

/-- Rows in insertion order, at most one for each name. -/
structure Table (β : Type) where
  rows : List (String × β) := []
  deriving Repr

namespace Table

variable {β : Type}

/-- The rows after `key` is given the value `value`. -/
def putRow (key : String) (value : β) : List (String × β) → List (String × β)
  | [] => [(key, value)]
  | (k, v) :: rows => if k = key then (k, value) :: rows else (k, v) :: putRow key value rows

/-- The table after `key` is given the value `value`. -/
def put (t : Table β) (key : String) (value : β) : Table β := ⟨putRow key value t.rows⟩

/-- The value of a name. -/
def get? (t : Table β) (key : String) : Option β := t.rows.lookup key

/-- The name is in the table. -/
def contains (t : Table β) (key : String) : Bool := (t.get? key).isSome

/-- The names in insertion order. -/
def keys (t : Table β) : List String := t.rows.map (·.1)

/-- The values in insertion order of their names. -/
def values (t : Table β) : List β := t.rows.map (·.2)

/-- The number of names. -/
def size (t : Table β) : Nat := t.rows.length

/-- The table of a list of rows; of rows with one name the last value counts. -/
def ofList (rows : List (String × β)) : Table β :=
  rows.foldl (fun t (k, v) => t.put k v) ⟨[]⟩

/-- The table with the rows of another put in after its own. -/
def merge (t u : Table β) : Table β := u.rows.foldl (fun t (k, v) => t.put k v) t

end Table

end Trellis
