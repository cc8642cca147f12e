import FlowLint.Json.Basic

/-!
Reading typed values out of JSON. A decoder is told how many arrays and objects may still be
opened; only data that is read counts, so that a member nobody asks for may nest to any depth.

A record is an object, or an array of its fields in their order, of which a tail may be left off.
A known key must not be repeated; other members are ignored.

A choice is the bare name of a case that carries nothing, or an object of one member, whose key is
the name and whose value is what the case carries (`null` if nothing).
-/

namespace FlowLint.Json

/-- Reads a value of which at most the given number of containers may be opened. -/
abbrev Decoder (α : Type) := Nat → Json → Option α

/-- The most containers that data may open one inside the other. -/
def nestingLimit : Nat := 127

namespace Decoder

variable {α β : Type}

def run (d : Decoder α) (j : Json) : Option α := d nestingLimit j

def map (f : α → β) (d : Decoder α) : Decoder β := fun level j => (d level j).map f

def string : Decoder String
  | _, .scalar (.string (some s)) => some s
  | _, _ => none

def bool : Decoder Bool
  | _, .scalar (.bool b) => some b
  | _, _ => none

def integer (low high : Int) : Decoder Int
  | _, .scalar (.number n) => n.toInt?.filter fun i => decide (low ≤ i ∧ i < high)
  | _, _ => none

def natural (limit : Nat) : Decoder Nat := map Int.toNat (integer 0 limit)

def optional (d : Decoder α) : Decoder (Option α)
  | _, .scalar .null => some none
  | level, j => (d level j).map some

def list (d : Decoder α) : Decoder (List α)
  | level + 1, .array items => items.mapM (d level)
  | _, _ => none

end Decoder

abbrev Fields := List (String × Json)

def fields? (keys : List String) : Json → Option Fields
  | .array values => if values.length ≤ keys.length then some (keys.zip values) else none
  | .object members => do
    let named ← members.mapM fun (key, value) => key.map (·, value)
    let known := named.filter fun (key, _) => keys.contains key
    if (known.map Prod.fst).Nodup then some known else none
  | _ => none

namespace Fields

variable {α : Type}

def required (fields : Fields) (key : String) (read : Json → Option α) : Option α :=
  (fields.lookup key).bind read

def withDefault (fields : Fields) (key : String) (default : α) (read : Json → Option α) :
    Option α :=
  match fields.lookup key with
  | none => some default
  | some j => read j

def optional (fields : Fields) (key : String) (d : Decoder α) (level : Nat) : Option (Option α) :=
  fields.withDefault key none (d.optional level)

end Fields

/-- A record with the given keys; its fields are read one level further in. -/
def Decoder.record {α : Type} (keys : List String) (body : Nat → Fields → Option α) : Decoder α
  | level + 1, j => (fields? keys j).bind (body level)
  | 0, _ => none

/-- The name of a case and what it carries, with the level inside it. -/
inductive Choice where
  | bare (name : String)
  | carrying (name : String) (level : Nat) (value : Json)

def choice? : Decoder Choice
  | _, .scalar (.string (some name)) => some (.bare name)
  | level + 1, .object [(some name, value)] => some (.carrying name level value)
  | _, _ => none

def Choice.plain? : Choice → Option String
  | .bare name => some name
  | .carrying name _ (.scalar .null) => some name
  | _ => none

def Decoder.plain {α : Type} (cases : List α) (tag : α → String) : Decoder α := fun level j => do
  let choice ← choice? level j
  let name ← choice.plain?
  cases.find? (tag · == name)

def Decoder.carrying {α : Type} (cases : List (String × Decoder α)) : Decoder α := fun level j => do
  match ← choice? level j with
  | .carrying name level value => (← cases.lookup name) level value
  | .bare _ => none

/-- A choice in which some cases carry something and others do not. -/
def Decoder.choice {α : Type} (carrying : List (String × Decoder α)) (plain : List α)
    (tag : α → String) : Decoder α := fun level j =>
  Decoder.carrying carrying level j <|> Decoder.plain plain tag level j

def case (name : String) (value : Json) : Json := record [(name, value)]

end FlowLint.Json
