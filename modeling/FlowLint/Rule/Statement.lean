import FlowLint.Graph.Region
import FlowLint.Rule.Basic

/-!
Rules about statements, some of which depend on the exception regions around them.
-/

namespace FlowLint

structure Surroundings where
  inFinal : Bool
  inAny : Bool
  deriving DecidableEq, Repr

def Regions.around (r : Regions) (id : Nat) : Surroundings := ⟨r.contains .final id, r.covers id⟩

namespace Context

def maybeString (c : Context) (value : Expr) : Bool :=
  !value.mask.isDecidable || c.registry.hasString value.mask

/-- A conversion method must return a string, a void routine nothing, and no routine may return
from a final block. -/
def returnStatement (c : Context) (around : Surroundings) (s : Statement) (value : Option Expr) :
    List Remark :=
  remarkIf (c.symbol.isToString && !value.any c.maybeString) s.span
    (.toStringWithoutString ((c.owner.map TypeSymbol.qualifiedName).getD c.symbol.name)) ++
  remarkIf (c.symbol.returnsVoid && value.isSome) s.span .voidReturnsValue ++
  remarkIf (s.span.isSome && around.inFinal) s.span
    (.notImplemented "return from 'finally' block")

def yieldStatement (around : Surroundings) (s : Statement) : List Remark :=
  remarkIf around.inAny s.span
    (.notImplemented "yielding from an exception handling construct (try, catch, finally)")

def declareStatement (clause : Span) : List Remark := [⟨some clause, .ignored "Declare construct"⟩]

def statement (c : Context) (around : Surroundings) (s : Statement) : List Remark :=
  match s.form with
  | .return value => c.returnStatement around s value
  | .yield _ _ => yieldStatement around s
  | .declare clause => declareStatement clause
  | _ => []

end Context

end FlowLint
