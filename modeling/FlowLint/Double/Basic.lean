/-!
IEEE 754 binary64 numbers, exactly: a finite number is a sign and a magnitude
`significand · 2 ^ exponent`, and every operation rounds the exact result to the nearest
representable one.
-/

namespace FlowLint

namespace Double

/-- The one form in which binary64 stores `significand · 2 ^ exponent`: 53 bits, of which the
first is set unless the exponent is already the least. -/
def Stored (significand : Nat) (exponent : Int) : Prop :=
  significand < Nat.pow 2 53 ∧ -1074 ≤ exponent ∧ exponent ≤ 971 ∧
    (Nat.pow 2 52 ≤ significand ∨ exponent = -1074)

instance (significand : Nat) (exponent : Int) : Decidable (Stored significand exponent) := by
  unfold Stored
  infer_instance

structure Magnitude where
  significand : Nat
  exponent : Int
  stored : Stored significand exponent
  deriving DecidableEq

namespace Magnitude

def zero : Magnitude := ⟨0, -1074, by decide⟩

def isZero (a : Magnitude) : Bool := a.significand == 0

def numerator (a : Magnitude) : Nat := a.significand * Nat.pow 2 a.exponent.toNat

def denominator (a : Magnitude) : Nat := Nat.pow 2 (-a.exponent).toNat

/-- A significand and an exponent in stored form; `none` beyond the range. -/
def ofParts? (significand : Nat) (exponent : Int) : Option Magnitude :=
  if h : Stored significand exponent then some ⟨significand, exponent, h⟩ else none

/-- The greatest `k` with `2 ^ k ≤ num / den`. -/
def floorLog2 (num den : Nat) : Int :=
  let k : Int := num.log2 - den.log2
  if num * Nat.pow 2 (-k).toNat < den * Nat.pow 2 k.toNat then k - 1 else k

/-- The integer nearest to `num / den`; of two equally near the even one. -/
def roundHalfEven (num den : Nat) : Nat :=
  let q := num / den
  let r := num % den
  if 2 * r < den then q
  else if den < 2 * r then q + 1
  else if q % 2 = 0 then q else q + 1

/-- The magnitude nearest to `num / den`, ties to even; `none` if that is infinite. -/
def nearest (num den : Nat) : Option Magnitude :=
  if num = 0 then some zero
  else
    let e := max (-1074) (floorLog2 num den - 52)
    let q := roundHalfEven (num * Nat.pow 2 (-e).toNat) (den * Nat.pow 2 e.toNat)
    if q = Nat.pow 2 53 then ofParts? (Nat.pow 2 52) (e + 1) else ofParts? q e

def times (a b : Magnitude) : Option Magnitude :=
  nearest (a.numerator * b.numerator) (a.denominator * b.denominator)

def quotient (a b : Magnitude) : Option Magnitude :=
  nearest (a.numerator * b.denominator) (a.denominator * b.numerator)

def floor (a : Magnitude) : Nat := a.numerator / a.denominator

def isWhole (a : Magnitude) : Bool := a.numerator % a.denominator == 0

end Magnitude

end Double

inductive Double where
  | nan
  | infinite (negative : Bool)
  | finite (negative : Bool) (magnitude : Double.Magnitude)
  deriving DecidableEq

namespace Double

def isZero : Double → Bool
  | finite _ a => a.isZero
  | _ => false

/-- The integer between zero and the number that is nearest to it; `none` if it is not finite. -/
def truncate : Double → Option Int
  | finite negative a => some (if negative then -a.floor else a.floor)
  | _ => none

end Double

end FlowLint
