/-!
# JSON

JSON texts as trees. Numbers keep the text they were written with, and objects keep all their
members in order. The reader cuts the text into lexemes and runs a stack machine over them. It can
pass over members of the outermost object that are not asked for.
-/

namespace Logicless

inductive Json where
  | null
  | bool (b : Bool)
  | number (text : String)
  | string (s : String)
  | array (items : List Json)
  | object (members : List (String × Json))

namespace Json

inductive Lexeme where
  | scalar (value : Json)
  /-- A string with a surrogate that is not part of a pair. -/
  | unpaired
  | openArray
  | closeArray
  | openObject
  | closeObject
  | comma
  | colon

/-! ### Numbers -/

/-- A run of digits that is not empty, and the rest. -/
def digits? (cs : List Char) : Option (List Char × List Char) :=
  let ds := cs.takeWhile Char.isDigit
  if ds.isEmpty then none else some (ds, cs.dropWhile Char.isDigit)

/-- A whole number without a leading zero, and the rest. -/
def whole? : List Char → Option (List Char × List Char)
  | '0' :: cs => some (['0'], cs)
  | cs => digits? cs

/-- The fraction, if there is one. -/
def fraction? : List Char → Option (List Char × List Char)
  | '.' :: cs => (digits? cs).map fun (ds, rest) => ('.' :: ds, rest)
  | cs => some ([], cs)

/-- The exponent, if there is one. -/
def exponent? : List Char → Option (List Char × List Char)
  | e :: cs =>
    if e = 'e' ∨ e = 'E' then
      match cs with
      | sign :: rest =>
        if sign = '+' ∨ sign = '-' then
          (digits? rest).map fun (ds, rest) => (e :: sign :: ds, rest)
        else (digits? cs).map fun (ds, rest) => (e :: ds, rest)
      | [] => none
    else some ([], e :: cs)
  | [] => some ([], [])

/-- The text of a number, and the rest. -/
def number? (cs : List Char) : Option (String × List Char) := do
  let (sign, cs) := match cs with
    | '-' :: cs => (['-'], cs)
    | cs => ([], cs)
  let (whole, cs) ← whole? cs
  let (fraction, cs) ← fraction? cs
  let (exponent, cs) ← exponent? cs
  some (String.ofList (sign ++ whole ++ fraction ++ exponent), cs)

/-! ### Strings -/

def hexDigit? (c : Char) : Option Nat :=
  if c.isDigit then some (c.toNat - '0'.toNat)
  else if 'a' ≤ c ∧ c ≤ 'f' then some (c.toNat - 'a'.toNat + 10)
  else if 'A' ≤ c ∧ c ≤ 'F' then some (c.toNat - 'A'.toNat + 10)
  else none

/-- The code unit that four hexadecimal digits spell. -/
def codeUnit? (a b c d : Char) : Option Nat := do
  some (4096 * (← hexDigit? a) + 256 * (← hexDigit? b) + 16 * (← hexDigit? c) + (← hexDigit? d))

def simpleEscape? : Char → Option Char
  | '"' => some '"'
  | '\\' => some '\\'
  | '/' => some '/'
  | 'b' => some '\x08'
  | 'f' => some '\x0c'
  | 'n' => some '\n'
  | 'r' => some '\r'
  | 't' => some '\t'
  | _ => none

def isHighSurrogate (n : Nat) : Bool := 0xD800 ≤ n && n < 0xDC00
def isLowSurrogate (n : Nat) : Bool := 0xDC00 ≤ n && n < 0xE000

/-- The code points and code units up to the closing quotation mark, and the rest. -/
def stringTail? : List Char → Option (List Nat × List Char)
  | [] => none
  | '"' :: cs => some ([], cs)
  | '\\' :: 'u' :: a :: b :: c :: d :: cs => do
    let unit ← codeUnit? a b c d
    let (ns, rest) ← stringTail? cs
    some (unit :: ns, rest)
  | '\\' :: c :: cs => do
    let c ← simpleEscape? c
    let (ns, rest) ← stringTail? cs
    some (c.toNat :: ns, rest)
  | c :: cs =>
    if c = '\\' ∨ c.toNat < 0x20 then none
    else (stringTail? cs).map fun (ns, rest) => (c.toNat :: ns, rest)

/-- The characters of code points and code units. Surrogates come in pairs. -/
def characters? : List Nat → Option (List Char)
  | [] => some []
  | [n] => if isHighSurrogate n || isLowSurrogate n then none else some [Char.ofNat n]
  | n :: m :: ns =>
    if isHighSurrogate n then
      if isLowSurrogate m then
        (characters? ns).map (Char.ofNat (0x10000 + (n - 0xD800) * 0x400 + (m - 0xDC00)) :: ·)
      else none
    else if isLowSurrogate n then none
    else (characters? (m :: ns)).map (Char.ofNat n :: ·)

/-! ### Lexemes -/

def isSpace (c : Char) : Bool :=
  c = ' ' || c = '\n' || c = '\t' || c = '\r'

/-- The first lexeme, and the rest. -/
def lexeme? : List Char → Option (Lexeme × List Char)
  | '[' :: cs => some (.openArray, cs)
  | ']' :: cs => some (.closeArray, cs)
  | '{' :: cs => some (.openObject, cs)
  | '}' :: cs => some (.closeObject, cs)
  | ',' :: cs => some (.comma, cs)
  | ':' :: cs => some (.colon, cs)
  | 'n' :: 'u' :: 'l' :: 'l' :: cs => some (.scalar .null, cs)
  | 't' :: 'r' :: 'u' :: 'e' :: cs => some (.scalar (.bool true), cs)
  | 'f' :: 'a' :: 'l' :: 's' :: 'e' :: cs => some (.scalar (.bool false), cs)
  | '"' :: cs => (stringTail? cs).map fun (ns, rest) =>
    match characters? ns with
    | some s => (.scalar (.string (String.ofList s)), rest)
    | none => (.unpaired, rest)
  | cs => (number? cs).map fun (text, rest) => (.scalar (.number text), rest)

/-- All lexemes of a text. Each takes at least one of the `fuel` characters. -/
def lexemes? : (fuel : Nat) → List Char → Option (List Lexeme)
  | fuel, cs =>
    match cs.dropWhile isSpace with
    | [] => some []
    | cs =>
      match fuel with
      | 0 => none
      | fuel + 1 => do
        let (lexeme, rest) ← lexeme? cs
        let lexemes ← lexemes? fuel rest
        some (lexeme :: lexemes)

/-! ### The stack machine -/

/-- An array or object that is not complete, its parts latest first. -/
inductive Frame where
  | array (items : List Json)
  | object (members : List (String × Json)) (name : Option String)

/-- What may come next. -/
inductive Expected where
  | value
  | itemOrEnd
  | nameOrEnd
  | name
  | colon
  | commaOrEnd
  | nothing (result : Json)

/-- What is asked of a text. -/
structure Demand where
  /-- No more arrays and objects than this may stand within one another. -/
  limit : Nat
  /-- The members of the outermost object to pass over. Their values are only checked for form: they
  may be of any depth, and surrogates in them need not come in pairs. -/
  passesOver : String → Bool

structure Machine where
  expected : Expected
  stack : List Frame
  /-- Whether the value at hand belongs to a member that is passed over. -/
  passing : Bool

/-- A value is complete. -/
def Machine.give (passing : Bool) (stack : List Frame) (v : Json) : Option Machine :=
  match stack with
  | [] => some ⟨.nothing v, [], false⟩
  | .array items :: rest => some ⟨.commaOrEnd, .array (v :: items) :: rest, passing⟩
  | .object members (some n) :: rest =>
    some ⟨.commaOrEnd, .object ((n, v) :: members) none :: rest, passing && !rest.isEmpty⟩
  | .object _ none :: _ => none

/-- An array or object begins. -/
def Machine.enter (d : Demand) (passing : Bool) (frame : Frame) (expected : Expected)
    (stack : List Frame) : Option Machine :=
  if passing || stack.length < d.limit then some ⟨expected, frame :: stack, passing⟩ else none

def Machine.startValue (d : Demand) (passing : Bool) (stack : List Frame) :
    Lexeme → Option Machine
  | .scalar v => give passing stack v
  | .unpaired => if passing then give passing stack .null else none
  | .openArray => enter d passing (.array []) .itemOrEnd stack
  | .openObject => enter d passing (.object [] none) .nameOrEnd stack
  | _ => none

/-- The name of a member. -/
def Machine.startMember (d : Demand) (passing : Bool) (members : List (String × Json))
    (rest : List Frame) : Lexeme → Option Machine
  | .scalar (.string n) =>
    some ⟨.colon, .object members (some n) :: rest, passing || rest.isEmpty && d.passesOver n⟩
  | .unpaired => if passing then some ⟨.colon, .object members (some "") :: rest, passing⟩ else none
  | _ => none

/-- An array or object ends. -/
def Machine.finish (passing : Bool) : List Frame → Lexeme → Option Machine
  | .array items :: rest, .closeArray => give passing rest (.array items.reverse)
  | .object members none :: rest, .closeObject => give passing rest (.object members.reverse)
  | _, _ => none

def Machine.step (d : Demand) (m : Machine) (lexeme : Lexeme) : Option Machine :=
  match m.expected, m.stack, lexeme with
  | .value, stack, lexeme => startValue d m.passing stack lexeme
  | .itemOrEnd, stack, .closeArray => finish m.passing stack .closeArray
  | .itemOrEnd, stack, lexeme => startValue d m.passing stack lexeme
  | .nameOrEnd, stack, .closeObject => finish m.passing stack .closeObject
  | .nameOrEnd, .object members none :: rest, lexeme
  | .name, .object members none :: rest, lexeme => startMember d m.passing members rest lexeme
  | .colon, stack, .colon => some ⟨.value, stack, m.passing⟩
  | .commaOrEnd, .array items :: rest, .comma => some ⟨.value, .array items :: rest, m.passing⟩
  | .commaOrEnd, .object members none :: rest, .comma =>
    some ⟨.name, .object members none :: rest, m.passing⟩
  | .commaOrEnd, stack, lexeme => finish m.passing stack lexeme
  | _, _, _ => none

/-- The tree of a JSON text that meets a demand. -/
def parseFor? (d : Demand) (text : String) : Option Json := do
  let cs := text.toList
  let lexemes ← lexemes? cs.length cs
  let m ← lexemes.foldlM (Machine.step d) ⟨.value, [], false⟩
  match m.expected with
  | .nothing v => some v
  | _ => none

/-- The tree of a JSON text with at most `limit` arrays and objects within one another. -/
def parseWithin? (limit : Nat) (text : String) : Option Json :=
  parseFor? ⟨limit, fun _ => false⟩ text

/-- The limit where no other is asked for. -/
def usualLimit : Nat := 127

/-- The tree of a JSON text of no more than the usual depth. -/
def parse? (text : String) : Option Json :=
  parseWithin? usualLimit text

end Json

end Logicless
