import FlowLint.Graph.Visit

/-!
Visitors. A visitor says what it does at each kind of node. It is handed the walk through the
children of the node, as a change of its state, and decides itself when to take it; by default it
does nothing but walk on.
-/

namespace FlowLint

variable {σ : Type}

structure Visitor (σ : Type) where
  block : Block → (σ → σ) → σ → σ := fun _ walk => walk
  header : CatchHeader → (σ → σ) → σ → σ := fun _ walk => walk
  statement : Statement → (σ → σ) → σ → σ := fun _ walk => walk
  edge : Edge → (σ → σ) → σ → σ := fun _ walk => walk
  expr : Expr → (σ → σ) → σ → σ := fun _ walk => walk
  type : TypeReference Expr → (σ → σ) → σ → σ := fun _ walk => walk

namespace Visitor

/-- What the visitor does at a node with the given walk through its children. -/
def look (v : Visitor σ) : Node → (σ → σ) → σ → σ
  | .block b => v.block b
  | .header h => v.header h
  | .statement s => v.statement s
  | .edge e => v.edge e
  | .expr e => v.expr e
  | .type t => v.type t

/-- Visits a node. The walk through its children goes from left to right. -/
def visit (v : Visitor σ) (n : Node) : σ → σ :=
  v.look n fun s => n.children.attach.foldl (fun s ⟨c, _⟩ => v.visit c s) s
termination_by sizeOf n
decreasing_by exact Node.sizeOf_child_lt ‹_›

def visitAll (v : Visitor σ) (nodes : List Node) (s : σ) : σ :=
  nodes.foldl (fun s n => v.visit n s) s

@[simp] theorem visitAll_nil (v : Visitor σ) (s : σ) : v.visitAll [] s = s := rfl

@[simp] theorem visitAll_cons (v : Visitor σ) (n : Node) (rest : List Node) (s : σ) :
    v.visitAll (n :: rest) s = v.visitAll rest (v.visit n s) := rfl

theorem visit_eq (v : Visitor σ) (n : Node) : v.visit n = v.look n (v.visitAll n.children) := by
  rw [visit]
  congr 1
  funext s
  rw [List.foldl_subtype fun _ _ _ => rfl, List.unattach_attach, visitAll]

end Visitor

end FlowLint
