import FlowLint.File.Place

/-!
Where the log goes. The path that is given for it names a file even if it ends in a slash; one that
has no name at its end stands for a file of the standard name.
-/

namespace FlowLint

structure LogFile where
  directory : String
  name : String
  deriving DecidableEq, Repr

namespace LogFile

def standardName : String := "phpc-diag.log"

/-- The parts of a path, the last first, from the first one on that does not stay. -/
def solid (parts : List String) : List String := parts.dropWhile fun p => Move.ofPart p == .stay

/-- A part that goes up at the end gives way to the standard name. Without any part at all, the file
lies where the program runs, also for the path of the root. -/
def ofPath (path : String) : LogFile :=
  match solid (path.splitOn "/").reverse with
  | [] => ⟨".", standardName⟩
  | last :: outer =>
    let name := if Move.ofPart last == .up then standardName else last
    match solid outer with
    | [] => ⟨if path.startsWith "/" then "/" else ".", name⟩
    | outer => ⟨"/".intercalate outer.reverse, name⟩

def path (l : LogFile) : String :=
  if l.directory = "/" then "/" ++ l.name else l.directory ++ "/" ++ l.name

end LogFile

end FlowLint
