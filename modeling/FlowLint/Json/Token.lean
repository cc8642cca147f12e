import FlowLint.Json.Basic
import FlowLint.Text.Decimal

/-!
The tokens of JSON text: how each is spelled, and how text is cut into tokens. Blanks between
tokens are a space, tab, line feed or carriage return.
-/

namespace FlowLint.Json

open Text (digit digitChar ofDigits)

inductive Token where
  | openArray
  | closeArray
  | openObject
  | closeObject
  | comma
  | colon
  | scalar (value : Scalar)
  deriving DecidableEq, Repr

def renderFraction (fraction : List (Fin 10)) : List Char :=
  if fraction.isEmpty then [] else '.' :: fraction.map fun (d : Fin 10) => digitChar d

def renderExponent : Option Int → List Char
  | none => []
  | some e => 'e' :: (if e < 0 then ['-'] else []) ++ Nat.toDigits 10 e.natAbs

def Numeral.render (n : Numeral) : List Char :=
  (if n.negative then ['-'] else []) ++ Nat.toDigits 10 n.whole ++ renderFraction n.fraction ++
  renderExponent n.exponent

/-- A character inside quotes. Control characters without a short escape have four hexadecimal
digits; everything above the space stands for itself except the quote and the backslash. -/
def escape (c : Char) : List Char :=
  if c = '"' then ['\\', '"']
  else if c = '\\' then ['\\', '\\']
  else if c = '\x08' then ['\\', 'b']
  else if c = '\x0c' then ['\\', 'f']
  else if c = '\n' then ['\\', 'n']
  else if c = '\r' then ['\\', 'r']
  else if c = '\t' then ['\\', 't']
  else if c.toNat < 0x20 then
    ['\\', 'u', '0', '0', Nat.digitChar (c.toNat / 16), Nat.digitChar (c.toNat % 16)]
  else [c]

/-- A string that is no text is spelled as a lone half of a surrogate pair. -/
def renderText : Text → List Char
  | some s => '"' :: s.toList.flatMap escape ++ ['"']
  | none => ['"', '\\', 'u', 'd', '8', '0', '0', '"']

def Scalar.render : Scalar → List Char
  | .null => ['n', 'u', 'l', 'l']
  | .bool true => ['t', 'r', 'u', 'e']
  | .bool false => ['f', 'a', 'l', 's', 'e']
  | .number n => n.render
  | .string s => renderText s

def Token.render : Token → List Char
  | .openArray => ['[']
  | .closeArray => [']']
  | .openObject => ['{']
  | .closeObject => ['}']
  | .comma => [',']
  | .colon => [':']
  | .scalar s => s.render

/-- The digits at the front, of which there must be one, and what follows them. -/
def scanDigits (cs : List Char) : Option (List Char × List Char) :=
  if (cs.takeWhile Char.isDigit).isEmpty then none
  else some (cs.takeWhile Char.isDigit, cs.dropWhile Char.isDigit)

/-- The integer part: zero stands alone, other numbers do not start with it. -/
def scanWhole : List Char → Option (Nat × List Char)
  | '0' :: rest => some (0, rest)
  | cs => (scanDigits cs).map fun (ds, rest) => (ofDigits ds, rest)

def scanFraction : List Char → Option (List (Fin 10) × List Char)
  | '.' :: cs => (scanDigits cs).map fun (ds, rest) => (ds.map digit, rest)
  | cs => some ([], cs)

def scanExponent : List Char → Option (Option Int × List Char)
  | c :: cs =>
    if c = 'e' ∨ c = 'E' then
      match cs with
      | '+' :: cs => (scanDigits cs).map fun (ds, rest) => (some (ofDigits ds : Int), rest)
      | '-' :: cs => (scanDigits cs).map fun (ds, rest) => (some (-(ofDigits ds : Int)), rest)
      | cs => (scanDigits cs).map fun (ds, rest) => (some (ofDigits ds : Int), rest)
    else some (none, c :: cs)
  | [] => some (none, [])

def scanUnsigned (negative : Bool) (cs : List Char) : Option (Numeral × List Char) := do
  let (whole, cs) ← scanWhole cs
  let (fraction, cs) ← scanFraction cs
  let (exponent, cs) ← scanExponent cs
  some (⟨negative, whole, fraction, exponent⟩, cs)

def scanNumeral : List Char → Option (Numeral × List Char)
  | '-' :: cs => scanUnsigned true cs
  | cs => scanUnsigned false cs

/-- A part of a string literal: a character, or a 16-bit unit that an escape names. -/
inductive Piece where
  | char (c : Char)
  | unit (value : Nat)
  deriving DecidableEq, Repr

def unescape (c : Char) : Option Char :=
  if c = '"' ∨ c = '\\' ∨ c = '/' then some c
  else if c = 'b' then some '\x08'
  else if c = 'f' then some '\x0c'
  else if c = 'n' then some '\n'
  else if c = 'r' then some '\r'
  else if c = 't' then some '\t'
  else none

def hexValue (c : Char) : Option Nat :=
  if c.isDigit then some (c.toNat - 48)
  else if 'a' ≤ c ∧ c ≤ 'f' then some (c.toNat - 87)
  else if 'A' ≤ c ∧ c ≤ 'F' then some (c.toNat - 55)
  else none

def hexUnit (a b c d : Char) : Option Nat := do
  some ((((← hexValue a) * 16 + (← hexValue b)) * 16 + (← hexValue c)) * 16 + (← hexValue d))

/-- The pieces up to the closing quote, and what follows it. Control characters need an escape. -/
def scanPieces : List Char → Option (List Piece × List Char)
  | [] => none
  | '"' :: rest => some ([], rest)
  | '\\' :: 'u' :: a :: b :: c :: d :: rest => do
    let unit ← hexUnit a b c d
    let (pieces, rest) ← scanPieces rest
    some (.unit unit :: pieces, rest)
  | '\\' :: e :: rest => do
    let c ← unescape e
    let (pieces, rest) ← scanPieces rest
    some (.char c :: pieces, rest)
  | c :: rest =>
    if c.toNat < 0x20 then none
    else do
      let (pieces, rest) ← scanPieces rest
      some (.char c :: pieces, rest)

def isHighHalf (n : Nat) : Bool := 0xD800 ≤ n && n < 0xDC00

def isLowHalf (n : Nat) : Bool := 0xDC00 ≤ n && n < 0xE000

/-- The characters that the pieces name: a high half needs a low half right after it, and a low
half nothing but a high half before it. -/
def joinPieces : List Piece → Option (List Char)
  | [] => some []
  | .char c :: rest => (joinPieces rest).map (c :: ·)
  | .unit n :: rest =>
    if isHighHalf n then
      match rest with
      | .unit m :: rest =>
        if isLowHalf m then
          (joinPieces rest).map (Char.ofNat (0x10000 + (n - 0xD800) * 0x400 + (m - 0xDC00)) :: ·)
        else none
      | _ => none
    else if isLowHalf n then none
    else (joinPieces rest).map (Char.ofNat n :: ·)

def scanText (cs : List Char) : Option (Text × List Char) :=
  (scanPieces cs).map fun (pieces, rest) => ((joinPieces pieces).map String.ofList, rest)

def isBlank (c : Char) : Bool := c = ' ' || c = '\n' || c = '\t' || c = '\r'

/-- The token at the front of text that does not start with a blank. -/
def nextToken : List Char → Option (Token × List Char)
  | '[' :: rest => some (.openArray, rest)
  | ']' :: rest => some (.closeArray, rest)
  | '{' :: rest => some (.openObject, rest)
  | '}' :: rest => some (.closeObject, rest)
  | ',' :: rest => some (.comma, rest)
  | ':' :: rest => some (.colon, rest)
  | 'n' :: 'u' :: 'l' :: 'l' :: rest => some (.scalar .null, rest)
  | 't' :: 'r' :: 'u' :: 'e' :: rest => some (.scalar (.bool true), rest)
  | 'f' :: 'a' :: 'l' :: 's' :: 'e' :: rest => some (.scalar (.bool false), rest)
  | '"' :: rest => (scanText rest).map fun (text, rest) => (.scalar (.string text), rest)
  | cs => (scanNumeral cs).map fun (n, rest) => (.scalar (.number n), rest)

theorem scanDigits_shorter {cs ds rest : List Char} (h : scanDigits cs = some (ds, rest)) :
    rest.length < cs.length := by
  unfold scanDigits at h
  split at h
  · simp at h
  · rename_i nonempty
    obtain ⟨rfl, rfl⟩ := Prod.mk.inj (Option.some.inj h)
    have parts : cs.takeWhile Char.isDigit ++ cs.dropWhile Char.isDigit = cs :=
      List.takeWhile_append_dropWhile
    have size := congrArg List.length parts
    rw [List.length_append] at size
    have positive : 0 < (cs.takeWhile Char.isDigit).length :=
      List.length_pos_iff.2 (by simpa using nonempty)
    omega

theorem scanWhole_shorter {cs rest : List Char} {n : Nat} (h : scanWhole cs = some (n, rest)) :
    rest.length < cs.length := by
  unfold scanWhole at h
  split at h
  · obtain ⟨-, rfl⟩ := Prod.mk.inj (Option.some.inj h)
    simp
  · obtain ⟨⟨ds, after⟩, found, same⟩ := Option.map_eq_some_iff.1 h
    obtain ⟨-, rfl⟩ := Prod.mk.inj same
    exact scanDigits_shorter found

theorem scanFraction_no_longer {cs rest : List Char} {ds : List (Fin 10)}
    (h : scanFraction cs = some (ds, rest)) : rest.length ≤ cs.length := by
  unfold scanFraction at h
  split at h
  · obtain ⟨⟨ds, after⟩, found, same⟩ := Option.map_eq_some_iff.1 h
    obtain ⟨-, rfl⟩ := Prod.mk.inj same
    have := scanDigits_shorter found
    simp
    omega
  · obtain ⟨-, rfl⟩ := Prod.mk.inj (Option.some.inj h)
    exact Nat.le_refl _

theorem scanExponent_no_longer {cs rest : List Char} {e : Option Int}
    (h : scanExponent cs = some (e, rest)) : rest.length ≤ cs.length := by
  unfold scanExponent at h
  split at h
  · split at h
    · split at h <;>
      · obtain ⟨⟨ds, after⟩, found, same⟩ := Option.map_eq_some_iff.1 h
        obtain ⟨-, rfl⟩ := Prod.mk.inj same
        have := scanDigits_shorter found
        simp
        omega
    · obtain ⟨-, rfl⟩ := Prod.mk.inj (Option.some.inj h)
      exact Nat.le_refl _
  · obtain ⟨-, rfl⟩ := Prod.mk.inj (Option.some.inj h)
    exact Nat.le_refl _

theorem scanUnsigned_shorter {negative : Bool} {cs rest : List Char} {n : Numeral}
    (h : scanUnsigned negative cs = some (n, rest)) : rest.length < cs.length := by
  simp only [scanUnsigned, Option.bind_eq_bind, Option.bind_eq_some_iff, Prod.exists] at h
  obtain ⟨whole, afterWhole, foundWhole, fraction, afterFraction, foundFraction, e, after,
    foundExponent, same⟩ := h
  obtain ⟨-, rfl⟩ := Prod.mk.inj (Option.some.inj same)
  have := scanWhole_shorter foundWhole
  have := scanFraction_no_longer foundFraction
  have := scanExponent_no_longer foundExponent
  omega

theorem scanNumeral_shorter {cs rest : List Char} {n : Numeral}
    (h : scanNumeral cs = some (n, rest)) : rest.length < cs.length := by
  unfold scanNumeral at h
  split at h
  · have := scanUnsigned_shorter h
    simp
    omega
  · exact scanUnsigned_shorter h

theorem scanPieces_shorter {cs rest : List Char} {pieces : List Piece}
    (h : scanPieces cs = some (pieces, rest)) : rest.length < cs.length := by
  fun_induction scanPieces cs generalizing pieces rest with
  | case1 => simp at h
  | case2 =>
    obtain ⟨-, rfl⟩ := Prod.mk.inj (Option.some.inj h)
    simp
  | case3 a b c d tail ih =>
    simp only [Option.bind_eq_bind, Option.bind_eq_some_iff, Prod.exists] at h
    obtain ⟨unit, -, inner, after, found, same⟩ := h
    obtain ⟨-, rfl⟩ := Prod.mk.inj (Option.some.inj same)
    have := ih found
    simp
    omega
  | case4 e tail other ih =>
    simp only [Option.bind_eq_bind, Option.bind_eq_some_iff, Prod.exists] at h
    obtain ⟨c, -, inner, after, found, same⟩ := h
    obtain ⟨-, rfl⟩ := Prod.mk.inj (Option.some.inj same)
    have := ih found
    simp
    omega
  | case5 => simp at h
  | case6 c tail _ _ _ printable ih =>
    simp only [Option.bind_eq_bind, Option.bind_eq_some_iff, Prod.exists] at h
    obtain ⟨inner, after, found, same⟩ := h
    obtain ⟨-, rfl⟩ := Prod.mk.inj (Option.some.inj same)
    have := ih found
    simp
    omega

theorem nextToken_shorter {cs rest : List Char} {t : Token}
    (h : nextToken cs = some (t, rest)) : rest.length < cs.length := by
  unfold nextToken at h
  split at h
  case h_10 =>
    obtain ⟨⟨text, after⟩, found, same⟩ := Option.map_eq_some_iff.1 h
    obtain ⟨-, rfl⟩ := Prod.mk.inj same
    obtain ⟨⟨pieces, after⟩, scanned, same⟩ := Option.map_eq_some_iff.1 found
    obtain ⟨-, rfl⟩ := Prod.mk.inj same
    have := scanPieces_shorter scanned
    simp
    omega
  case h_11 =>
    obtain ⟨⟨n, after⟩, found, same⟩ := Option.map_eq_some_iff.1 h
    obtain ⟨-, rfl⟩ := Prod.mk.inj same
    exact scanNumeral_shorter found
  all_goals
    obtain ⟨-, rfl⟩ := Prod.mk.inj (Option.some.inj h)
    simp only [List.length_cons]
    omega

/-- All tokens of a text; `none` where some part of it is no token. -/
def tokenize (cs : List Char) : Option (List Token) :=
  match _unblank : cs.dropWhile isBlank with
  | [] => some []
  | c :: more =>
    match _found : nextToken (c :: more) with
    | none => none
    | some (t, rest) => (tokenize rest).map (t :: ·)
termination_by cs.length
decreasing_by
  have := nextToken_shorter _found
  have parts : (cs.dropWhile isBlank).length ≤ cs.length :=
    (List.dropWhile_suffix isBlank).length_le
  rw [_unblank] at parts
  omega

end FlowLint.Json
