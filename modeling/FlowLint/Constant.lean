import FlowLint.Double.Decimal

/-!
Constants that are known before the program runs, the text they print as, and the key under which
an array stores them.
-/

namespace FlowLint

inductive Constant where
  | null
  | bool (value : Bool)
  | int (value : Int)
  | double (value : Double)
  | text (value : String)
  deriving DecidableEq

inductive ArrayKey where
  | int (value : Int)
  | text (value : String)
  deriving DecidableEq, Repr

def minInt : Int := -9223372036854775808

def maxInt : Int := 9223372036854775807

def clampInt (i : Int) : Int := max minInt (min maxInt i)

/-- Whole numbers below `10 ^ 15` print as integers, without a sign for zero; other numbers with
their fewest digits, never with an exponent. -/
def Double.toText : Double → String
  | .nan => "NAN"
  | .infinite negative => if negative then "-INF" else "INF"
  | .finite negative a =>
    if a.isWhole && a.floor < Nat.pow 10 15 then
      toString (if negative then -(a.floor : Int) else a.floor)
    else String.ofList (a.shortest.numeral negative).render

namespace ArrayKey

/-- A text that is the canonical spelling of a 64-bit integer is that integer. -/
def ofText (s : String) : ArrayKey :=
  match Text.canonicalInt? s.toList with
  | some i => if minInt ≤ i ∧ i ≤ maxInt then int i else text s
  | none => text s

def toText : ArrayKey → String
  | int i => toString i
  | text s => s

end ArrayKey

namespace Constant

/-- Zero as an integer or a double; nothing else counts as zero. -/
def isZero : Constant → Bool
  | int i => i == 0
  | double d => d.isZero
  | _ => false

def isFalse : Constant → Bool
  | bool false => true
  | _ => false

def toText : Constant → String
  | null => ""
  | bool true => "1"
  | bool false => ""
  | int i => toString i
  | double d => d.toText
  | text s => s

/-- Booleans are 0 and 1, doubles lose their fraction and are clamped to 64 bits, `null` is the
empty text. A double that is not finite is no key. -/
def arrayKey : Constant → Option ArrayKey
  | null => some (.text "")
  | bool b => some (.int (if b then 1 else 0))
  | int i => some (.int i)
  | double d => d.truncate.map fun i => .int (clampInt i)
  | text s => some (.ofText s)

end Constant

end FlowLint
