import FlowLint.Double.Basic
import FlowLint.Json.Token

/-!
Doubles and decimal numerals.

Reading keeps the leading digits of a numeral as long as they fit 64 bits, rounds them to a double
and scales it by powers of ten, rounding after each step. Up to 19 digits are never cut, and
powers up to `10 ^ 22` are exact, so that short numerals get the nearest double.

Writing chooses the fewest digits that read back as the same double, of those the nearest to it,
of two equally near the greater, and sets them out without an exponent.
-/

namespace FlowLint.Double

open Json (Numeral)

/-- Leading digits kept, and how many further digits were left out. -/
structure Kept where
  value : Nat := 0
  left : Nat := 0

/-- One more digit, kept if nothing was left out so far and the value still fits 64 bits. -/
def Kept.push (k : Kept) (digit : Nat) : Kept :=
  if k.left = 0 ∧ 10 * k.value + digit < UInt64.size then ⟨10 * k.value + digit, 0⟩
  else ⟨k.value, k.left + 1⟩

/-- The kept digits of a numeral and the power of ten they are to be scaled by. Digits of the
integer part that were left out count towards the power; those after the point do not. -/
def keptDigits (n : Numeral) : Nat × Int :=
  let whole := ((Nat.toDigits 10 n.whole).map Text.digitValue).foldl Kept.push {}
  let all := (n.fraction.map Fin.val).foldl Kept.push ⟨whole.value, 0⟩
  let places := n.fraction.length - all.left
  (all.value, whole.left - places + n.exponent.getD 0)

def powerOfTen (e : Nat) : Option Magnitude := Magnitude.nearest (Nat.pow 10 e) 1

/-- `a · 10 ^ e`, in steps of at most `10 ^ 308`; `none` if that is infinite. -/
def scale (a : Magnitude) (e : Int) : Option Magnitude :=
  if e.natAbs ≤ 308 then
    (powerOfTen e.natAbs).bind (if 0 ≤ e then a.times else a.quotient)
  else if a.isZero then some a
  else if 0 ≤ e then none
  else ((powerOfTen 308).bind a.quotient).bind fun b => scale b (e + 308)
termination_by (-e).toNat
decreasing_by omega

def ofNumeral? (n : Numeral) : Option Double :=
  let (digits, power) := keptDigits n
  ((Magnitude.nearest digits 1).bind (scale · power)).map (finite n.negative)

/-- Decimal digits scaled by a power of ten: `digits · 10 ^ power`. -/
structure Scaled where
  digits : Nat
  power : Int
  deriving DecidableEq, Repr

def digitCount (n : Nat) : Nat := (Nat.toDigits 10 n).length

def floorLog10 (num den : Nat) : Int :=
  if den ≤ num then digitCount (num / den) - 1
  else
    let c := digitCount (den / num)
    if den ≤ num * Nat.pow 10 (c - 1) then -((c - 1 : Nat) : Int) else -(c : Int)

/-- The reals that round to a magnitude, over a common denominator: the magnitude itself and the
two ends, which belong to it if the significand is even. -/
structure Neighbourhood where
  low : Nat
  value : Nat
  high : Nat
  denominator : Nat
  closed : Bool

/-- Half a unit to each side; below a power of two a quarter, where the units are half as wide. -/
def Magnitude.neighbourhood (a : Magnitude) : Neighbourhood :=
  let unit := Nat.pow 2 (a.exponent - 2).toNat
  let below := if a.significand = Nat.pow 2 52 ∧ -1074 < a.exponent then 1 else 2
  { low := (4 * a.significand - below) * unit
    value := 4 * a.significand * unit
    high := (4 * a.significand + 2) * unit
    denominator := Nat.pow 2 (2 - a.exponent).toNat
    closed := a.significand % 2 = 0 }

/-- Whether `digits · 10 ^ power` rounds to the magnitude. -/
def Neighbourhood.contains (n : Neighbourhood) (s : Scaled) : Bool :=
  let num := s.digits * Nat.pow 10 s.power.toNat * n.denominator
  let den := Nat.pow 10 (-s.power).toNat
  if n.closed then n.low * den ≤ num && num ≤ n.high * den
  else n.low * den < num && num < n.high * den

/-- Of the two decimals around the value with the given last place, the one that rounds to it;
if both do, the nearer, and of two equally near the greater. -/
def Neighbourhood.decimalAt (n : Neighbourhood) (power : Int) : Option Scaled :=
  let num := n.value * Nat.pow 10 (-power).toNat
  let den := n.denominator * Nat.pow 10 power.toNat
  let below : Scaled := ⟨num / den, power⟩
  let above : Scaled := ⟨num / den + 1, power⟩
  match n.contains below, n.contains above with
  | true, true => if 2 * (num % den) < den then some below else some above
  | true, false => some below
  | false, true => some above
  | false, false => none

/-- The digits of a magnitude; 17 always suffice. -/
def Magnitude.shortest (a : Magnitude) : Scaled :=
  if a.isZero then ⟨0, 0⟩
  else
    let n := a.neighbourhood
    let top := floorLog10 n.value n.denominator
    ((List.range 17).findSome? fun (i : Nat) => n.decimalAt (top - (i : Int))).getD ⟨a.floor, 0⟩

/-- The decimal set out without an exponent; zeros at the end of a fraction are left out. -/
def Scaled.numeral (negative : Bool) (s : Scaled) : Numeral :=
  let places := (-s.power).toNat
  let fraction := s.digits % Nat.pow 10 places
  let written := (Nat.toDigits 10 fraction).map Text.digit
  let padded := List.replicate (places - written.length) 0 ++ written
  { negative
    whole := s.digits * Nat.pow 10 s.power.toNat / Nat.pow 10 places
    fraction := if places = 0 then [] else (padded.reverse.dropWhile (· == 0)).reverse }

/-- The shortest numeral without an exponent; `none` if the number is not finite. -/
def numeral? : Double → Option Numeral
  | finite negative a => some (a.shortest.numeral negative)
  | _ => none

end FlowLint.Double
