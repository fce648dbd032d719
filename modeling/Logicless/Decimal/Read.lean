/-!
# Reading decimals

The floating-point number nearest to a decimal text.
-/

namespace Logicless.Decimal

def digitsValue (ds : List Char) : Nat :=
  ds.foldl (fun n c => 10 * n + (c.toNat - '0'.toNat)) 0

/-- The number that a text of nothing but decimal digits spells. -/
def readIndex? (s : String) : Option Nat :=
  let ds := s.toList
  if ds.isEmpty || !ds.all Char.isDigit then none else some (digitsValue ds)

/-- The nearest number to `significand * 10 ^ exponent`. Above and below the range of the type it
is infinity and zero. -/
def nearestFloat (negative : Bool) (significand : Nat) (exponent : Int) : Float :=
  let order := exponent + (Nat.toDigits 10 significand).length
  let magnitude : Float :=
    if significand = 0 ∨ order < -400 then 0.0
    else if 400 < order then 1.0 / 0.0
    else if 0 ≤ exponent then Float.ofScientific significand false exponent.toNat
    else Float.ofScientific significand true (-exponent).toNat
  if negative then -magnitude else magnitude

/-- The sign at the start of a text, and the rest. -/
def splitSign : List Char → Bool × List Char
  | '-' :: cs => (true, cs)
  | '+' :: cs => (false, cs)
  | cs => (false, cs)

/-- A whole number with or without a sign. -/
def readInteger? (cs : List Char) : Option Int :=
  let (negative, ds) := splitSign cs
  if ds.isEmpty || !ds.all Char.isDigit then none
  else
    let n : Int := digitsValue ds
    some (if negative then -n else n)

/-- A whole number from `low` to `high`. Where no number is negative, no minus sign is read. -/
def readWithin? (low high : Int) (s : String) : Option Int :=
  let cs := s.toList
  if 0 ≤ low ∧ cs.head? = some '-' then none
  else (readInteger? cs).filter fun n => low ≤ n && n ≤ high

/-- Digits, with a point and an exponent if the text has them. -/
def readUnsigned? (negative : Bool) (cs : List Char) : Option Float :=
  let whole := cs.takeWhile Char.isDigit
  let afterWhole := cs.dropWhile Char.isDigit
  let (fraction, rest) := match afterWhole with
    | '.' :: cs => (cs.takeWhile Char.isDigit, cs.dropWhile Char.isDigit)
    | cs => ([], cs)
  if whole.isEmpty && fraction.isEmpty then none
  else
    let exponent? := match rest with
      | [] => some 0
      | 'e' :: cs | 'E' :: cs => readInteger? cs
      | _ => none
    exponent?.map fun e =>
      nearestFloat negative (digitsValue (whole ++ fraction)) (e - fraction.length)

/-- The number nearest to a decimal text. Infinity and NaN are read in any case. -/
def readFloat? (s : String) : Option Float :=
  let (negative, cs) := splitSign s.toList
  match String.ofList (cs.map Char.toLower) with
  | "inf" | "infinity" => some (if negative then -(1.0 / 0.0) else 1.0 / 0.0)
  | "nan" => some (0.0 / 0.0)
  | _ => readUnsigned? negative cs

end Logicless.Decimal
