import FlowLint.Graph.Basic
import FlowLint.Symbol.Basic
import FlowLint.Value.Registry

/-!
Programs as they are handed over for analysis: a symbol table, and the routines whose bodies are to
be looked at.
-/

namespace FlowLint

/-- A routine and its body. Abstract methods and members of interfaces have no graph. -/
structure Routine where
  symbol : RoutineId
  graph : Option Graph
  registry : Registry

structure Program where
  symbols : SymbolTable
  routines : List Routine

end FlowLint
