import FlowLint.Json.Token

/-!
JSON text as a whole. Writing flattens a value into tokens; reading runs over the tokens with a
stack of the arrays and objects that are still open, and each token changes the state in one step.
-/

namespace FlowLint.Json

mutual

/-- The tokens of a value, without any blanks. -/
def tokens : Json → List Token
  | .scalar s => [.scalar s]
  | .array items => .openArray :: itemTokens items
  | .object members => .openObject :: memberTokens members

def itemTokens : List Json → List Token
  | [] => [.closeArray]
  | [item] => tokens item ++ [.closeArray]
  | item :: rest => tokens item ++ .comma :: itemTokens rest

def memberTokens : List (Text × Json) → List Token
  | [] => [.closeObject]
  | [(key, value)] => .scalar (.string key) :: .colon :: tokens value ++ [.closeObject]
  | (key, value) :: rest =>
    .scalar (.string key) :: .colon :: tokens value ++ .comma :: memberTokens rest

end

def render (j : Json) : String := String.ofList (j.tokens.flatMap Token.render)

/-- A container that is still open, with what it holds so far, the latest first. -/
inductive Frame where
  | items (before : List Json)
  | members (before : List (Text × Json)) (key : Text)

/-- What may come next, and the containers that are open, the innermost first. -/
inductive Reading where
  | needValue (outer : List Frame)
  /-- An array has just been opened: a value or its end. -/
  | afterBracket (outer : List Frame)
  /-- An object has just been opened: a key or its end. -/
  | afterBrace (outer : List Frame)
  | needKey (outer : List Frame) (before : List (Text × Json))
  | needColon (outer : List Frame) (before : List (Text × Json)) (key : Text)
  | complete (outer : List Frame) (value : Json)

def Reading.startValue (outer : List Frame) : Token → Option Reading
  | .scalar s => some (.complete outer (.scalar s))
  | .openArray => some (.afterBracket outer)
  | .openObject => some (.afterBrace outer)
  | _ => none

def Reading.startKey (outer : List Frame) (before : List (Text × Json)) : Token → Option Reading
  | .scalar (.string key) => some (.needColon outer before key)
  | _ => none

def Reading.step : Reading → Token → Option Reading
  | .needValue outer, t => startValue outer t
  | .afterBracket outer, .closeArray => some (.complete outer (.array []))
  | .afterBracket outer, t => startValue (.items [] :: outer) t
  | .afterBrace outer, .closeObject => some (.complete outer (.object []))
  | .afterBrace outer, t => startKey outer [] t
  | .needKey outer before, t => startKey outer before t
  | .needColon outer before key, .colon => some (.needValue (.members before key :: outer))
  | .complete (.items before :: outer) v, .comma =>
    some (.needValue (.items (v :: before) :: outer))
  | .complete (.items before :: outer) v, .closeArray =>
    some (.complete outer (.array (v :: before).reverse))
  | .complete (.members before key :: outer) v, .comma => some (.needKey outer ((key, v) :: before))
  | .complete (.members before key :: outer) v, .closeObject =>
    some (.complete outer (.object ((key, v) :: before).reverse))
  | _, _ => none

/-- The value that a whole list of tokens spells. -/
def ofTokens? (ts : List Token) : Option Json :=
  match ts.foldlM Reading.step (.needValue []) with
  | some (.complete [] v) => some v
  | _ => none

/-- The value that a text spells; nothing but blanks may surround it. -/
def parse? (s : String) : Option Json := (tokenize s.toList).bind ofTokens?

end FlowLint.Json
