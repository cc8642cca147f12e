import FlowLint.Diagnostic.Report
import FlowLint.Graph.Search
import FlowLint.Program.Basic
import FlowLint.Rule.Routine
import FlowLint.Rule.Walk

/-!
The analysis of a program. The blocks that control can reach are visited in ascending order, and
the rules look at every node in them; the rules about the routine as a whole come after that. Each
routine is analysed on its own.
-/

namespace FlowLint

namespace Context

def walk (c : Context) (g : Graph) : Walk :=
  (c.visitor g.plan.regions).visitAll (g.reachableBlocks.map .block) .init

def routine (c : Context) (g : Graph) : List Remark :=
  (c.walk g).found ++
  c.parentConstructor (c.walk g).callsParent ++
  labels g.labels ++
  unreachableCode g

end Context

/-- The nodes that the walk of a graph enters. -/
def Graph.entered (g : Graph) : List Node :=
  g.reachableBlocks.flatMap fun b => (Node.block b).entered

/-- A remark without a place points at the heading of the routine. -/
def Remark.diagnostic (id : RoutineId) (heading : Span) (r : Remark) : Diagnostic :=
  ⟨id, r.span.getD heading, r.finding⟩

/-- The diagnostics of a routine, in the order in which they are found. There are none without a
body, or for a routine that is not declared. -/
def Routine.diagnostics (symbols : SymbolTable) (r : Routine) : List Diagnostic :=
  match r.graph, symbols.routine? r.symbol with
  | some g, some symbol =>
    ((⟨symbol, symbols, r.registry⟩ : Context).routine g).map
      (·.diagnostic r.symbol symbol.heading)
  | _, _ => []

/-- The sink to which every routine has published its diagnostics. -/
def Program.analyze (p : Program) : Sink :=
  p.routines.foldl (fun sink r => sink.publish r.symbol (r.diagnostics p.symbols)) .empty

end FlowLint
