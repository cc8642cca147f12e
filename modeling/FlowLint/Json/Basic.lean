/-!
JSON values as written: members keep their order and repetitions, and a number keeps the parts
it was spelled with, so that each reader decides for itself what it accepts.
-/

namespace FlowLint

namespace Json

/-- A number literal: sign, integer part, digits after the point, exponent. -/
structure Numeral where
  negative : Bool := false
  whole : Nat
  fraction : List (Fin 10) := []
  exponent : Option Int := none
  deriving DecidableEq, Repr

/-- What a string literal spells; `none` if it escapes half of a surrogate pair. -/
abbrev Text := Option String

inductive Scalar where
  | null
  | bool (value : Bool)
  | number (value : Numeral)
  | string (value : Text)
  deriving DecidableEq, Repr

end Json

inductive Json where
  | scalar (value : Json.Scalar)
  | array (items : List Json)
  | object (members : List (Json.Text × Json))
  deriving Repr, Inhabited

namespace Json

def Numeral.ofNat (n : Nat) : Numeral := { whole := n }

def Numeral.ofInt (i : Int) : Numeral := { negative := i < 0, whole := i.natAbs }

/-- Only a literal without fraction and exponent is an integer; `-0` is none either. -/
def Numeral.toInt? (n : Numeral) : Option Int :=
  if n.fraction ≠ [] ∨ n.exponent ≠ none ∨ (n.negative ∧ n.whole = 0) then none
  else if n.negative then some (-n.whole) else some n.whole

def null : Json := .scalar .null

def bool (b : Bool) : Json := .scalar (.bool b)

def text (s : String) : Json := .scalar (.string (some s))

def nat (n : Nat) : Json := .scalar (.number (.ofNat n))

def int (i : Int) : Json := .scalar (.number (.ofInt i))

def record (members : List (String × Json)) : Json :=
  .object (members.map fun (key, value) => (some key, value))

/-- An absent value is written as `null`. -/
def optional (write : α → Json) : Option α → Json
  | none => null
  | some a => write a

def list (write : α → Json) (values : List α) : Json := .array (values.map write)

theorem Numeral.toInt?_ofInt (i : Int) : (Numeral.ofInt i).toInt? = some i := by
  have kept : ¬(decide (i < 0) = true ∧ i.natAbs = 0) := by
    rw [decide_eq_true_eq]
    omega
  unfold toInt? ofInt
  rw [if_neg (fun h => h.elim (· rfl) fun h => h.elim (· rfl) kept)]
  by_cases negative : i < 0
  · have size : -(i.natAbs : Int) = i := by omega
    rw [if_pos (decide_eq_true negative), size]
  · have size : (i.natAbs : Int) = i := by omega
    rw [if_neg (by rwa [decide_eq_true_eq]), size]

theorem Numeral.toInt?_ofNat (n : Nat) : (Numeral.ofNat n).toInt? = some (n : Int) := by
  simp [toInt?, ofNat]

end Json

end FlowLint
