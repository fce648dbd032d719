import Logicless.Decimal.Read

/-!
# Values

The data that a template is rendered with.
-/

namespace Logicless

/-- What a lambda receives in place of a section: the source between its tags, or the text that
the section renders to. -/
inductive LambdaInput where
  | literal
  | processed
deriving DecidableEq, Repr

/-- A value that produces text. As a value tag it is invoked without input. Two lambdas are the
same if they have one identity. -/
structure Lambda where
  id : Nat
  invoke : Option String → Except String (Option String)
  input : LambdaInput
  interpolated : Bool

/-- An object of the host program. It lists the members of its type, each of which has a value or
not. Two objects are the same if they have one identity. -/
structure HostObject (V : Type) where
  id : Nat
  typeName : String
  members : List (String × Option V)
  text : Option String

inductive Value where
  | null
  | bool (b : Bool)
  | int (n : Int64)
  | float (x : Float)
  | string (s : String)
  | list (items : List Value)
  | map (entries : List (String × Value))
  | lambda (l : Lambda)
  | object (o : HostObject Value)

/-- The value with the name given to it, in place of an earlier one of that name. -/
def putEntry (name : String) (value : V) : List (String × V) → List (String × V)
  | [] => [(name, value)]
  | (n, v) :: rest => if n = name then (n, value) :: rest else (n, v) :: putEntry name value rest

/-- Each name once, at its first place, with the last value given to it. -/
def putEntries (entries : List (String × V)) : List (String × V) :=
  entries.foldl (fun acc (n, v) => putEntry n v acc) []

namespace HostObject

/-- The position of a member in the list of members. -/
def indexOf? (o : HostObject V) (name : String) : Option Nat :=
  o.members.findIdx? fun m => m.1 == name

/-- The value of the member at a position. -/
def valueAt? (o : HostObject V) (index : Nat) : Option V :=
  o.members[index]?.bind (·.2)

end HostObject

namespace Value

/-- A map with these entries. A repeated name keeps its first place and its last value. -/
def ofEntries (entries : List (String × Value)) : Value :=
  .map (putEntries entries)

def isNull : Value → Bool
  | .null => true
  | _ => false

/-- The values that skip a section. -/
def isFalsy : Value → Bool
  | .null => true
  | .bool b => !b
  | .string s => s.isEmpty
  | .list items => items.isEmpty
  | _ => false

def typeName : Value → String
  | .null => "Null"
  | .bool _ => "Bool"
  | .int _ => "Int"
  | .float _ => "Float"
  | .string _ => "String"
  | .list _ => "List"
  | .map _ => "Map"
  | .lambda _ => "Lambda"
  | .object o => o.typeName

/-- The number of elements of a list or entries of a map. -/
def size? : Value → Option Nat
  | .list items => some items.length
  | .map entries => some entries.length
  | _ => none

/-! ### What a value binds -/

/-- The value a map binds to a name. -/
def get? (name : String) : Value → Option Value
  | .map entries => entries.lookup name
  | _ => none

/-- The element of a list at the index that the name spells in decimal digits. -/
def item? (name : String) : Value → Option Value
  | .list items => (Decimal.readIndex? name).bind (items[·]?)
  | _ => none

/-! ### Equality

Maps are equal if they bind the same names to equal values, in whatever order. -/

mutual

def same : Value → Value → Bool
  | .null, .null => true
  | .bool a, .bool b => a == b
  | .int a, .int b => a == b
  | .float a, .float b => a == b
  | .string a, .string b => a == b
  | .list as, .list bs => sameItems as bs
  | .map as, .map bs => as.length == bs.length && sameEntries as bs
  | .lambda a, .lambda b => a.id == b.id
  | .object a, .object b => a.id == b.id
  | _, _ => false

def sameItems : List Value → List Value → Bool
  | [], [] => true
  | a :: as, b :: bs => same a b && sameItems as bs
  | _, _ => false

/-- Each entry of the first list has its equal in the second. -/
def sameEntries : List (String × Value) → List (String × Value) → Bool
  | [], _ => true
  | (n, a) :: as, bs =>
    (match bs.lookup n with
      | some b => same a b
      | none => false) && sameEntries as bs

end

end Value

end Logicless
