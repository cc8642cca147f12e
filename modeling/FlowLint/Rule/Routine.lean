import FlowLint.Graph.Basic
import FlowLint.Rule.Basic

namespace FlowLint.Context

def parentConstructor (c : Context) (called : Bool) : List Remark :=
  remarkIf
    (!called && c.symbol.isConstructor && c.symbol.containingType.any c.symbols.hasBaseConstructor)
    (some c.symbol.heading) (.parentConstructorNotCalled ((c.owner.map (·.name)).getD ""))

/-- Labels that are jumped to but not defined, or defined more than once. -/
def labels (list : List Label) : List Remark :=
  list.flatMap fun l =>
    remarkIf (!l.isDefined) (some l.span) (.undefinedLabel l.name) ++
    remarkIf l.isRedefined (some l.span) (.redefinedLabel l.name)

def sourceOf (g : Graph) (id : Nat) : Option Span :=
  (g.block? id).bind fun b => Span.joinAll (b.statements.filterMap (·.span))

def unreachableIds (g : Graph) : List Nat := (g.unreachable.mergeSort (· ≤ ·)).eraseReps

/-- Blocks without any source are left out. -/
def unreachableCode (g : Graph) : List Remark :=
  (unreachableIds g).filterMap fun id =>
    (sourceOf g id).map fun span => ⟨some span, .unreachableCode⟩

end FlowLint.Context
