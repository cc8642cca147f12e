/-!
Decimal digits and the integers they spell. A canonical spelling has no leading zero, no plus sign
and no minus sign before zero, so that each integer has exactly one.
-/

namespace FlowLint.Text

-- the instance behind each literal digit, at the zero that core's literals of `Fin 10` use
instance neZero_ten : @NeZero Nat Zero.ofOfNat0 10 := ⟨by decide⟩

def digitChar (d : Nat) : Char := Char.ofNat (48 + d)

def digitValue (c : Char) : Nat := c.toNat - 48

def digit (c : Char) : Fin 10 := Fin.ofNat 10 (digitValue c)

def ofDigits (cs : List Char) : Nat := cs.foldl (fun n c => 10 * n + digitValue c) 0

/-- The natural number that a canonical run of digits spells. -/
def canonicalNat? : List Char → Option Nat
  | ['0'] => some 0
  | '0' :: _ => none
  | cs => if cs ≠ [] ∧ cs.all Char.isDigit then some (ofDigits cs) else none

def canonicalInt? : List Char → Option Int
  | '-' :: cs => ((canonicalNat? cs).filter (· ≠ 0)).map fun n => -(n : Int)
  | cs => (canonicalNat? cs).map fun n => (n : Int)

end FlowLint.Text
