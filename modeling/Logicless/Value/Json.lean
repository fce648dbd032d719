import Logicless.Json.Number
import Logicless.Value

/-!
# Values from JSON

The data that a JSON text describes.
-/

namespace Logicless.Value

/-- A natural number, as a floating-point number if it does not fit 64 bits with a sign. -/
def ofNat (n : Nat) : Value :=
  if n < UInt64.size / 2 then .int (Int64.ofNat n) else .float (Decimal.nearestFloat false n 0)

def ofNumber : Json.Number → Value
  | .whole n => if 0 ≤ n then ofNat n.toNat else .int (Int64.ofInt n)
  | .float x => .float x

mutual

/-- The value that JSON data describes. Nothing if a number is out of range. -/
def ofJson? : Json → Option Value
  | .null => some .null
  | .bool b => some (.bool b)
  | .number text => (Json.Number.ofText? text).map ofNumber
  | .string s => some (.string s)
  | .array items => (itemsOfJson? items).map .list
  | .object members => (entriesOfJson? members).map ofEntries

def itemsOfJson? : List Json → Option (List Value)
  | [] => some []
  | j :: rest => do
    let v ← ofJson? j
    let vs ← itemsOfJson? rest
    some (v :: vs)

def entriesOfJson? : List (String × Json) → Option (List (String × Value))
  | [] => some []
  | (name, j) :: rest => do
    let v ← ofJson? j
    let entries ← entriesOfJson? rest
    some ((name, v) :: entries)

end

end Logicless.Value
