import FlowLint.Text.Decimal
import FlowLint.Text.DecimalDigit
import FlowLint.Text.Name

/-!
Format strings. A percent sign starts a directive: either a second percent sign, or an optional
position `N$`, sign, padding (a space, a zero, or an apostrophe and any character but a line feed),
a minus for the alignment, width, precision `.N` and a conversion letter. Digits may be those of
any script.

A directive without a position takes the next argument; one with a position takes that argument.
-/

namespace FlowLint.Printf

inductive Directive where
  /-- A percent sign that stands for itself. -/
  | escaped
  | sequential
  | positional (digits : List Char)
  deriving DecidableEq, Repr

def isConversion (c : Char) : Bool := "bcdeEufFgGosxX".toList.contains c

def position? (cs : List Char) : Option (List Char × List Char) :=
  match cs.dropWhile Text.isDecimalDigit with
  | '$' :: rest =>
    if (cs.takeWhile Text.isDecimalDigit).isEmpty then none
    else some (cs.takeWhile Text.isDecimalDigit, rest)
  | _ => none

def skipSign : List Char → List Char
  | '+' :: cs => cs
  | '-' :: cs => cs
  | cs => cs

/-- An apostrophe needs the character to pad with. -/
def skipPadding? : List Char → Option (List Char)
  | ' ' :: cs => some cs
  | '0' :: cs => some cs
  | '\'' :: c :: cs => if c = '\n' then none else some cs
  | ['\''] => none
  | cs => some cs

def skipAlignment : List Char → List Char
  | '-' :: cs => cs
  | cs => cs

/-- A point needs digits after it. -/
def skipPrecision? : List Char → Option (List Char)
  | '.' :: cs =>
    if (cs.takeWhile Text.isDecimalDigit).isEmpty then none
    else some (cs.dropWhile Text.isDecimalDigit)
  | cs => some cs

def skipConversion? : List Char → Option (List Char)
  | c :: cs => if isConversion c then some cs else none
  | [] => none

def afterConversion? (cs : List Char) : Option (List Char) := do
  let padded ← skipPadding? (skipSign cs)
  let precise ← skipPrecision? ((skipAlignment padded).dropWhile Text.isDecimalDigit)
  skipConversion? precise

/-- The directive whose percent sign stands just before the text, and what follows it. -/
def directive? : List Char → Option (Directive × List Char)
  | '%' :: rest => some (.escaped, rest)
  | cs =>
    match position? cs with
    | some (digits, after) => (afterConversion? after).map fun rest => (.positional digits, rest)
    | none => (afterConversion? cs).map fun rest => (.sequential, rest)

theorem length_skipSign_le (cs : List Char) : (skipSign cs).length ≤ cs.length := by
  unfold skipSign
  split <;> simp

theorem length_skipAlignment_le (cs : List Char) : (skipAlignment cs).length ≤ cs.length := by
  unfold skipAlignment
  split <;> simp

theorem length_dropDigits_le (cs : List Char) :
    (cs.dropWhile Text.isDecimalDigit).length ≤ cs.length :=
  (List.dropWhile_suffix Text.isDecimalDigit).length_le

theorem position?_no_longer {cs digits rest : List Char}
    (found : position? cs = some (digits, rest)) : rest.length ≤ cs.length := by
  unfold position? at found
  split at found
  · rename_i after dropped
    split at found
    · simp at found
    · obtain ⟨-, rfl⟩ := Prod.mk.inj (Option.some.inj found)
      have := length_dropDigits_le cs
      rw [dropped, List.length_cons] at this
      omega
  · simp at found

theorem skipPadding?_no_longer {cs rest : List Char} (found : skipPadding? cs = some rest) :
    rest.length ≤ cs.length := by
  unfold skipPadding? at found
  split at found
  · obtain rfl := Option.some.inj found
    simp
  · obtain rfl := Option.some.inj found
    simp
  · split at found
    · simp at found
    · obtain rfl := Option.some.inj found
      simp
      omega
  · simp at found
  · obtain rfl := Option.some.inj found
    simp

theorem skipPrecision?_no_longer {cs rest : List Char} (found : skipPrecision? cs = some rest) :
    rest.length ≤ cs.length := by
  unfold skipPrecision? at found
  split at found
  · split at found
    · simp at found
    · obtain rfl := Option.some.inj found
      exact Nat.le_succ_of_le (length_dropDigits_le _)
  · obtain rfl := Option.some.inj found
    simp

theorem skipConversion?_no_longer {cs rest : List Char} (found : skipConversion? cs = some rest) :
    rest.length ≤ cs.length := by
  unfold skipConversion? at found
  split at found
  · split at found
    · obtain rfl := Option.some.inj found
      simp
    · simp at found
  · simp at found

theorem afterConversion?_no_longer {cs rest : List Char} (found : afterConversion? cs = some rest) :
    rest.length ≤ cs.length := by
  simp only [afterConversion?, Option.bind_eq_bind, Option.bind_eq_some_iff] at found
  obtain ⟨padded, padding, precise, precision, conversion⟩ := found
  calc
    rest.length ≤ precise.length := skipConversion?_no_longer conversion
    _ ≤ ((skipAlignment padded).dropWhile Text.isDecimalDigit).length :=
      skipPrecision?_no_longer precision
    _ ≤ (skipAlignment padded).length := length_dropDigits_le _
    _ ≤ padded.length := length_skipAlignment_le padded
    _ ≤ (skipSign cs).length := skipPadding?_no_longer padding
    _ ≤ cs.length := length_skipSign_le cs

theorem directive?_no_longer {cs rest : List Char} {d : Directive}
    (found : directive? cs = some (d, rest)) : rest.length ≤ cs.length := by
  unfold directive? at found
  split at found
  · obtain ⟨-, rfl⟩ := Prod.mk.inj (Option.some.inj found)
    simp
  · split at found
    · rename_i positioned
      obtain ⟨after, converted, same⟩ := Option.map_eq_some_iff.1 found
      obtain ⟨-, rfl⟩ := Prod.mk.inj same
      have := position?_no_longer positioned
      have := afterConversion?_no_longer converted
      omega
    · obtain ⟨after, converted, same⟩ := Option.map_eq_some_iff.1 found
      obtain ⟨-, rfl⟩ := Prod.mk.inj same
      exact afterConversion?_no_longer converted

/-- The directives from left to right. The search goes on behind a directive, and behind a percent
sign that starts none. -/
def directives : List Char → List Directive
  | [] => []
  | c :: cs =>
    if c = '%' then
      match _found : directive? cs with
      | some (d, rest) => d :: directives rest
      | none => directives cs
    else directives cs
termination_by cs => cs.length
decreasing_by
  · have := directive?_no_longer _found
    simp
    omega
  · simp
  · simp

/-- Counts have 64 bits. -/
def countLimit : Nat := UInt64.size

/-- The number that the digits of a position spell. Digits of other scripts and numbers of more
than 64 bits stand for the greatest number but one. -/
def positionValue (digits : List Char) : Nat :=
  if digits.all Char.isDigit ∧ Text.ofDigits digits < countLimit then Text.ofDigits digits
  else countLimit - 2

def sequentialCount (ds : List Directive) : Nat := ds.count .sequential

/-- The greatest position of a directive; 0 if none has one. -/
def greatestPosition (ds : List Directive) : Nat :=
  ds.foldl
    (fun greatest d =>
      match d with
      | .positional digits => max greatest (positionValue digits)
      | _ => greatest)
    0

/-- The number of arguments that a call with this format needs, the format itself included; `none`
if it has more than 64 bits. -/
def requiredArguments (format : String) : Option Nat :=
  let ds := directives format.toList
  let count := 1 + max (sequentialCount ds) (greatestPosition ds)
  if count < countLimit then some count else none

/-- The plain name, in lower case, of a function whose first argument is a format. -/
def formatFunction? (name : String) : Option String :=
  let plain := Text.asciiLower (Text.simpleName name)
  if plain = "printf" ∨ plain = "sprintf" then some plain else none

end FlowLint.Printf
