import FlowLint.Program.Basic

/-!
What makes a program unfit for analysis. Routines are checked in the order in which they are listed,
and the first defect counts.
-/

namespace FlowLint

inductive Defect where
  | unknownRoutine (routine : RoutineId)
  | duplicateRoutine (routine : RoutineId)
  | unsortedBlocks (routine : RoutineId)
  /-- Its graph starts at, or leads to, a block that it does not have. -/
  | missingBlock (routine : RoutineId) (block : Nat)
  deriving DecidableEq, Repr

def Defect.message : Defect → String
  | unknownRoutine routine => s!"routine #{routine} is not declared in the symbol table"
  | duplicateRoutine routine => s!"routine #{routine} is listed more than once"
  | unsortedBlocks routine => s!"routine #{routine}: blocks are not sorted by unique ordinals"
  | missingBlock routine block =>
    s!"routine #{routine}: block bb{block} is referenced but does not exist"

namespace Graph

/-- The blocks that a graph refers to: its start, then the targets of its edges block by block. -/
def references (g : Graph) : List Nat :=
  g.start :: g.blocks.flatMap fun b => b.edge.toList.flatMap Edge.targets

def missingBlock? (g : Graph) : Option Nat := g.references.find? fun id => (g.block? id).isNone

end Graph

def Routine.graphDefect? (r : Routine) : Option Defect :=
  r.graph.bind fun g =>
    if g.isSorted then g.missingBlock?.map (.missingBlock r.symbol)
    else some (.unsortedBlocks r.symbol)

/-- What is wrong with a routine that comes after the given ones. -/
def Routine.defect? (symbols : SymbolTable) (earlier : List RoutineId) (r : Routine) :
    Option Defect :=
  if (symbols.routine? r.symbol).isNone then some (.unknownRoutine r.symbol)
  else if r.symbol ∈ earlier then some (.duplicateRoutine r.symbol)
  else r.graphDefect?

def firstDefect? (symbols : SymbolTable) (earlier : List RoutineId) : List Routine → Option Defect
  | [] => none
  | r :: rest =>
    (r.defect? symbols earlier).or (firstDefect? symbols (r.symbol :: earlier) rest)

def Program.defect? (p : Program) : Option Defect := firstDefect? p.symbols [] p.routines

end FlowLint
