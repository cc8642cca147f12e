/-!
Places in the tree of directories. A path spells a place by the moves that lead to it; different
paths may spell the same place.
-/

namespace FlowLint

inductive Move where
  | stay
  | up
  | down (name : String)
  deriving DecidableEq, Repr

/-- Nothing and a single dot stay, a double dot goes up, and all else is a name. -/
def Move.ofPart (part : String) : Move :=
  if part = "" ∨ part = "." then stay else if part = ".." then up else down part

/-- The directory from which the names of a place are counted. -/
inductive Origin where
  | root
  /-- So many directories above the one in which the program runs. -/
  | above (levels : Nat)
  deriving DecidableEq, Repr

/-- The names on the way from the origin, the innermost first. -/
structure Place where
  origin : Origin
  names : List String
  deriving DecidableEq, Repr

namespace Place

/-- The root is its own parent. -/
def parent : Place → Place
  | ⟨origin, _ :: names⟩ => ⟨origin, names⟩
  | ⟨.root, []⟩ => ⟨.root, []⟩
  | ⟨.above levels, []⟩ => ⟨.above (levels + 1), []⟩

def child (p : Place) (name : String) : Place := ⟨p.origin, name :: p.names⟩

@[simp] theorem parent_child (p : Place) (name : String) : (p.child name).parent = p := rfl

def start (path : String) : Place := if path.startsWith "/" then ⟨.root, []⟩ else ⟨.above 0, []⟩

def moves (path : String) : List Move := (path.splitOn "/").map Move.ofPart

end Place

end FlowLint
