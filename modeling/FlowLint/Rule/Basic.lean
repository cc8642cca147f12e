import FlowLint.Diagnostic.Basic
import FlowLint.Tree.Basic
import FlowLint.Value.Registry

/-!
What rules work with. A rule looks at one node and answers with remarks: findings, and the places
where they belong. Nodes that the binder made up have no place; a remark without one belongs to the
heading of the routine.
-/

namespace FlowLint

structure Remark where
  span : Option Span
  finding : Finding
  deriving DecidableEq, Repr

structure Context where
  symbol : RoutineSymbol
  symbols : SymbolTable
  registry : Registry

namespace Context

def owner (c : Context) : Option TypeSymbol := c.symbols.ownerOf c.symbol

def target? (c : Context) (t : CallTarget) : Option RoutineSymbol :=
  t.resolved?.bind c.symbols.routine?

def type? {α : Type} (c : Context) (t : TypeReference α) : Option TypeSymbol :=
  t.resolved?.bind c.symbols.type?

end Context

def remarkIf (condition : Bool) (span : Option Span) (finding : Finding) : List Remark :=
  if condition then [⟨span, finding⟩] else []

theorem mem_remarkIf {condition : Bool} {span : Option Span} {finding : Finding} {r : Remark} :
    r ∈ remarkIf condition span finding ↔ condition = true ∧ r = ⟨span, finding⟩ := by
  cases condition <;> simp [remarkIf]

end FlowLint
