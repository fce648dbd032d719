import Logicless.Error
import Logicless.Text.Record
import Logicless.Value

/-!
# Hints

A hint remembers how a single name was resolved. It is tried on the innermost scope before the
resolvers are asked.
-/

namespace Logicless

/-- What code of the host program answers: its result, the release actions of the leases it took,
in order, and the host after it. -/
structure Reply (σ α : Type) where
  result : α
  leases : List (σ → σ)
  host : σ

/-- A hint of a resolver of the host program. -/
structure CustomHint (σ : Type) where
  label : String
  applicable : Bool
  resolve : Option Value → String → σ → Reply σ (Except Error (Option Value))

inductive Hint (σ : Type) where
  /-- The scope itself. -/
  | this
  /-- The entry of a map. -/
  | entry
  /-- The member at a position of objects of one type. -/
  | member (typeName : String) (index : Nat)
  /-- No hint can stand for this name. -/
  | inapplicable
  | custom (hint : CustomHint σ)

namespace Hint

/-- Only applicable hints are tried. -/
def isApplicable : Hint σ → Bool
  | .inapplicable => false
  | .custom h => h.applicable
  | _ => true

def label : Hint σ → String
  | .this => "ThisHint"
  | .entry => "MapHint"
  | .member typeName index =>
    "ReflectionHint \x7b type_name: " ++ Text.quote typeName ++ ", index: " ++ toString index ++
      " \x7d"
  | .inapplicable => "InapplicableHint"
  | .custom h => h.label

end Hint

end Logicless
