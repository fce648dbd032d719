import Logicless.Text.Printable

/-!
# Quoted texts and records

How diagnostics write a text between quotation marks, and lay out lists, optional values and
records with named fields.
-/

namespace Logicless.Text

/-- The character in a quoted text. -/
def quoteChar (c : Char) : String :=
  match c with
  | '\x00' => "\\0"
  | '\t' => "\\t"
  | '\n' => "\\n"
  | '\r' => "\\r"
  | '"' => "\\\""
  | '\\' => "\\\\"
  | c =>
    if isPrintable c then c.toString
    else "\\u\x7b" ++ String.ofList (Nat.toDigits 16 c.toNat) ++ "\x7d"

def quote (s : String) : String :=
  "\"" ++ String.join (s.toList.map quoteChar) ++ "\""

def listing (items : List String) : String :=
  "[" ++ ", ".intercalate items ++ "]"

/-- A name and what it holds. -/
def holding (name content : String) : String :=
  name ++ "(" ++ content ++ ")"

def optional (content : Option String) : String :=
  match content with
  | none => "None"
  | some s => holding "Some" s

def flag (b : Bool) : String :=
  if b then "true" else "false"

def field (name content : String) : String :=
  name ++ ": " ++ content

/-- Fields in braces. -/
def record (name : String) (fields : List String) : String :=
  name ++ " \x7b " ++ ", ".intercalate fields ++ " \x7d"

/-- Entries in braces. -/
def entries (items : List (String × String)) : String :=
  "\x7b" ++ ", ".intercalate (items.map fun (k, v) => field k v) ++ "\x7d"

end Logicless.Text
