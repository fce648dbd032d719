import Logicless.Text.Record

/-!
# Shared keys

A cache that is shared by consumers has keys of several types. Keys of different types are never
equal, however alike they look.
-/

namespace Logicless

inductive SharedKey where
  | string (s : String)
  | unsigned32 (n : UInt32)
  | unsigned64 (n : UInt64)
  | signed64 (n : Int64)
  | bool (b : Bool)
deriving DecidableEq

namespace SharedKey

def isString : SharedKey → Bool
  | .string _ => true
  | _ => false

def isUnsigned32 : SharedKey → Bool
  | .unsigned32 _ => true
  | _ => false

def isUnsigned64 : SharedKey → Bool
  | .unsigned64 _ => true
  | _ => false

def inspect : SharedKey → String
  | .string s => Text.quote s
  | .unsigned32 n => toString n.toNat
  | .unsigned64 n => toString n.toNat
  | .signed64 n => toString n.toInt
  | .bool b => Text.flag b

end SharedKey

end Logicless
