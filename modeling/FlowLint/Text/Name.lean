/-!
Names of the analysed language: they compare without regard to ASCII case, and a backslash
separates the segments of a qualified name.
-/

namespace FlowLint.Text

/-- Lower case of the ASCII letters; every other character stays. -/
def asciiLower (s : String) : String := s.map Char.toLower

def sameIgnoringCase (s t : String) : Bool := asciiLower s == asciiLower t

/-- The last segment of a qualified name; a name without a backslash is its own last segment. -/
def simpleName (name : String) : String :=
  String.ofList (name.toList.reverse.takeWhile (· ≠ '\\')).reverse

end FlowLint.Text
