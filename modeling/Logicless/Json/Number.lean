import Logicless.Decimal.Read
import Logicless.Json

/-!
# JSON numbers

The number that a JSON text stands for. Whole numbers of 64 bits are exact. Any other number is
computed from the digits that fit 64 bits and a power of ten, in floating-point arithmetic.
-/

namespace Logicless.Json

inductive Number where
  | whole (n : Int)
  | float (x : Float)

namespace Number

/-- The digits that extend `significand` within 64 bits, and those left over. -/
def accumulate (significand : Nat) : List Char → Nat × List Char
  | [] => (significand, [])
  | c :: cs =>
    let next := 10 * significand + (c.toNat - '0'.toNat)
    if next < UInt64.size then accumulate next cs else (significand, c :: cs)

def powerOfTen (n : Nat) : Float :=
  Decimal.nearestFloat false 1 n

/-- `x * 10 ^ exponent`, by one multiplication or division if the table of powers up to `10 ^ 308`
has the power, and after divisions by `10 ^ 308` otherwise. Nothing if that is out of range. -/
def scale? (x : Float) (exponent : Int) : Option Float :=
  if 0 ≤ exponent then
    if exponent ≤ 308 then
      let y := x * powerOfTen exponent.toNat
      if y.isInf then none else some y
    else if x == 0.0 then some x
    else none
  else if -308 ≤ exponent then some (x / powerOfTen (-exponent).toNat)
  else if x == 0.0 then some x
  else scale? (x / powerOfTen 308) (exponent + 308)
termination_by (-exponent).toNat

/-- The parts of a number text: sign, digits before and after the point, and exponent. -/
structure Parts where
  negative : Bool
  whole : List Char
  fraction : List Char
  exponent : Option (Bool × List Char)

def parts (text : String) : Parts :=
  let (negative, cs) := Decimal.splitSign text.toList
  let whole := cs.takeWhile Char.isDigit
  let (fraction, rest) := match cs.dropWhile Char.isDigit with
    | '.' :: cs => (cs.takeWhile Char.isDigit, cs.dropWhile Char.isDigit)
    | cs => ([], cs)
  let exponent := match rest with
    | [] => none
    | _ :: cs => some (Decimal.splitSign cs)
  ⟨negative, whole, fraction, exponent⟩

def withSign (negative : Bool) (x : Float) : Float :=
  if negative then -x else x

/-- The value of a number with a point, an exponent or too many digits. -/
def floatOf? (p : Parts) : Option Float := do
  let (significand, left) := accumulate 0 p.whole
  let (significand, unread) := accumulate significand p.fraction
  let shift : Int := (left.length : Int) - (p.fraction.length - unread.length : Nat)
  let x := Decimal.nearestFloat false significand 0
  match p.exponent with
  | none => (scale? x shift).map (withSign p.negative)
  | some (negativeExponent, ds) =>
    let e : Nat := Decimal.digitsValue ds
    if UInt32.size / 2 ≤ e then
      if significand = 0 || negativeExponent then some (withSign p.negative 0.0) else none
    else
      (scale? x (if negativeExponent then shift - e else shift + e)).map (withSign p.negative)

/-- The number of a JSON text. There is none if it is too large for a floating-point number. Minus
zero is a floating-point number. -/
def ofText? (text : String) : Option Number :=
  let p := parts text
  let n : Nat := Decimal.digitsValue p.whole
  if p.fraction.isEmpty && p.exponent.isNone && n < UInt64.size then
    if !p.negative then some (.whole n)
    else if 0 < n && n ≤ UInt64.size / 2 then some (.whole (-n))
    else some (.float (-(Decimal.nearestFloat false n 0)))
  else (floatOf? p).map .float

/-- A natural number of 64 bits. -/
def natural? (text : String) : Option Nat :=
  match ofText? text with
  | some (.whole n) => if 0 ≤ n then some n.toNat else none
  | _ => none

end Number

end Logicless.Json
