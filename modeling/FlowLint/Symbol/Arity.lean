import FlowLint.Symbol.Basic

/-!
How many arguments a call may pass. Leading implicit parameters are filled in by the compiler and
do not count.
-/

namespace FlowLint

/-- The least number of arguments, and the greatest unless there is no limit. -/
structure Arity where
  least : Nat
  most : Option Nat
  deriving DecidableEq, Repr

def explicitParameters (ps : List Parameter) : List Parameter := ps.dropWhile Parameter.isImplicit

/-- Arguments are passed by position, so that a call must reach the last parameter that it may not
leave out. A variadic parameter is special only at the end. -/
def leastArguments : List Parameter → Nat
  | [] => 0
  | [p] => if p.isOptionalLike || p.isVariadic then 0 else 1
  | p :: rest =>
    if 0 < leastArguments rest then leastArguments rest + 1
    else if p.isOptionalLike then 0 else 1

def collectsRest (ps : List Parameter) : Bool := ps.getLast?.any Parameter.isVariadic

def Arity.ofParameters (ps : List Parameter) : Arity :=
  { least := leastArguments (explicitParameters ps)
    most := if collectsRest ps then none else some (explicitParameters ps).length }

def RoutineSymbol.arity (r : RoutineSymbol) : Arity := .ofParameters r.parameters

end FlowLint
