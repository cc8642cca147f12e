/-!
Byte ranges of a source file. A span whose end lies before its start is allowed and is empty.
Positions are natural numbers without a limit. In a word of 64 bits `take` is the same only as long
as the start and the number of bytes together fit in it.
-/

namespace FlowLint

/-- The bytes from `start` up to, but not including, `stop`. -/
structure Span where
  start : Nat
  stop : Nat
  deriving DecidableEq, Repr, Inhabited

namespace Span

def length (s : Span) : Nat := s.stop - s.start

def isEmpty (s : Span) : Bool := s.length == 0

/-- At most the first `n` bytes; never past the end of the span. -/
def take (s : Span) (n : Nat) : Span := ⟨s.start, min (s.start + n) s.stop⟩

def join (s t : Span) : Span := ⟨min s.start t.start, max s.stop t.stop⟩

def joinAll : List Span → Option Span
  | [] => none
  | s :: rest => some (rest.foldl join s)

def text (s : Span) : String := toString s.start ++ ".." ++ toString s.stop

end Span

end FlowLint
