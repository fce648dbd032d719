import Logicless.Decimal.Shortest
import Logicless.Text.Record
import Logicless.Value

/-!
# The texts of a value

What a value tag writes, and the text that shows the structure of a value in a diagnostic.
-/

namespace Logicless.Value

mutual

def text : Value → String
  | .null => ""
  | .bool b => if b then "true" else "false"
  | .int n => toString n.toInt
  | .float x => Decimal.floatText x
  | .string s => s
  | .list items => "[" ++ String.intercalate ", " (textsOf items) ++ "]"
  | .map entries => "\x7b" ++ String.intercalate ", " (entryTextsOf entries) ++ "\x7d"
  | .lambda _ => "<lambda>"
  | .object o => o.text.getD o.typeName

def textsOf : List Value → List String
  | [] => []
  | v :: vs => text v :: textsOf vs

def entryTextsOf : List (String × Value) → List String
  | [] => []
  | (n, v) :: rest => (n ++ "=" ++ text v) :: entryTextsOf rest

end

/-- A host object that gives no text of its own is shown as a plain host. -/
def inspectHost (o : HostObject Value) : String :=
  match o.text with
  | some _ => "host:" ++ o.typeName
  | none => "PlainHost(host:" ++ o.typeName ++ ")"

mutual

def inspect : Value → String
  | .null => "Null"
  | .bool b => "Bool(" ++ text (.bool b) ++ ")"
  | .int n => "Int(" ++ text (.int n) ++ ")"
  | .float x => "Float(" ++ text (.float x) ++ ")"
  | .string s => "String(" ++ Text.quote s ++ ")"
  | .list items => "[" ++ String.intercalate ", " (inspectItems items) ++ "]"
  | .map entries => "\x7b" ++ String.intercalate ", " (inspectEntries entries) ++ "\x7d"
  | .lambda _ => "Lambda"
  | .object o => "Object(" ++ inspectHost o ++ ")"

def inspectItems : List Value → List String
  | [] => []
  | v :: vs => inspect v :: inspectItems vs

def inspectEntries : List (String × Value) → List String
  | [] => []
  | (n, v) :: rest => (Text.quote n ++ ": " ++ inspect v) :: inspectEntries rest

end

end Logicless.Value
