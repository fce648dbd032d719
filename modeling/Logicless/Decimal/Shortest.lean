/-!
# Shortest decimals

The decimal with the fewest digits that reads back as a given binary floating-point number, and
its text without an exponent.
-/

namespace Logicless.Decimal

/-- The number `digits * 10 ^ exponent`. -/
structure Numeral where
  digits : Nat
  exponent : Int
deriving DecidableEq, Repr

/-- A positive finite number `value / scale`, and the bounds `low / scale` and `high / scale` of
the numbers that round to it. The bounds belong to it if `closed`. -/
structure Interval where
  low : Nat
  value : Nat
  high : Nat
  scale : Nat
  closed : Bool
deriving DecidableEq, Repr

/-- The bit that leads the significand of a normal number, which is not stored. -/
def leadingBit : Nat := 4503599627370496

/-- The interval of `m * 2 ^ q`. A power of two has its lower neighbour at half the distance. -/
def Interval.of (m : Nat) (q : Int) : Interval :=
  let below := if m = leadingBit then 1 else 2
  let unit := Nat.pow 2 (q - 2).toNat
  { low := (4 * m - below) * unit
    value := 4 * m * unit
    high := (4 * m + 2) * unit
    scale := Nat.pow 2 (2 - q).toNat
    closed := m % 2 = 0 }

namespace Interval

/-- Numerator and denominator of `d`, over the scale of the interval. -/
def fraction (i : Interval) (d : Numeral) : Nat × Nat :=
  (d.digits * Nat.pow 10 d.exponent.toNat * i.scale, Nat.pow 10 (-d.exponent).toNat)

/-- Whether `d` rounds to the number. -/
def accepts (i : Interval) (d : Numeral) : Bool :=
  let (num, den) := i.fraction d
  if i.closed then i.low * den ≤ num && num ≤ i.high * den
  else i.low * den < num && num < i.high * den

/-- The exponent of the leading decimal digit. -/
def magnitude (i : Interval) : Int :=
  match i.value / i.scale with
  | 0 => -(((List.range 400).find? fun j => i.scale ≤ i.value * Nat.pow 10 j).getD 0 : Nat)
  | whole => (Nat.toDigits 10 whole).length - 1

/-- The multiple of `10 ^ exponent` nearest to the number among the two that enclose it and round
to it. The upper one wins a tie. -/
def nearest? (i : Interval) (exponent : Int) : Option Numeral :=
  let num := i.value * Nat.pow 10 (-exponent).toNat
  let den := i.scale * Nat.pow 10 exponent.toNat
  let below : Numeral := ⟨num / den, exponent⟩
  let above : Numeral := ⟨num / den + 1, exponent⟩
  match i.accepts below, i.accepts above with
  | true, true => some (if 2 * (num % den) < den then below else above)
  | true, false => some below
  | false, true => some above
  | false, false => none

/-- The nearest decimal on the coarsest decimal grid that has one in the interval. -/
def shortest (i : Interval) : Numeral :=
  let top := i.magnitude
  ((List.range 17).findSome? fun (k : Nat) => i.nearest? (top - k)).getD ⟨0, 0⟩

end Interval

/-- The digits and as many zeros as the exponent asks for. -/
def Numeral.positional (d : Numeral) : String :=
  let ds := Nat.toDigits 10 d.digits
  if 0 ≤ d.exponent then String.ofList (ds ++ List.replicate d.exponent.toNat '0')
  else
    let places := (-d.exponent).toNat
    let padded := List.replicate (places + 1 - ds.length) '0' ++ ds
    let whole := padded.take (padded.length - places)
    let fraction := ((padded.drop (padded.length - places)).reverse.dropWhile (· == '0')).reverse
    if fraction.isEmpty then String.ofList whole
    else String.ofList (whole ++ '.' :: fraction)

/-- The text of a floating-point number: the shortest decimal that reads back, without an
exponent. Zero keeps its sign. -/
def floatText (x : Float) : String :=
  let bits := x.toBits.toNat
  let negative := bits / (UInt64.size / 2) = 1
  let biased : Nat := bits / leadingBit % 2048
  let fraction : Nat := bits % leadingBit
  let sign := if negative then "-" else ""
  if biased = 2047 then
    if fraction = 0 then sign ++ "inf" else "NaN"
  else if biased = 0 ∧ fraction = 0 then sign ++ "0"
  else
    let interval :=
      if biased = 0 then Interval.of fraction (-1074)
      else Interval.of (leadingBit + fraction) ((biased : Int) - 1075)
    sign ++ interval.shortest.positional

end Logicless.Decimal
