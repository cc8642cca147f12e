import FlowLint.Graph.Visit
import FlowLint.Rule.Call
import FlowLint.Rule.Statement
import FlowLint.Rule.Value

/-!
What the rules say about a tree, without any state: the remarks at each step of its visit, those
before the children of a node and those after them. The walk gathers the same remarks.
-/

namespace FlowLint.Context

def enterExpr (c : Context) (e : Expr) : List Remark :=
  match e.form with
  | .var v => variableUse e v
  | .assign target value => selfAssignment e target value
  | .array list => c.arrayLiteral e list
  | .eval _ => evalUse e
  | .call call => c.callee e call
  | .instanceOf _ type => primitiveMisuse type
  | .field f => f.containingType.toList.flatMap primitiveMisuse
  | _ => []

def leaveExpr (c : Context) (e : Expr) : List Remark :=
  match e.form with
  | .binary .div _ right => division right
  | .unary .clone operand => c.clone e operand
  | .conversion target operand false => c.redundantCast e target operand
  | .assert arguments => c.assertion e arguments
  | .call call => c.argumentCount e call
  | _ => []

/-- A catch header is checked for all its types before they are visited. -/
def enter (c : Context) (around : Surroundings) : Node → List Remark
  | .block _ => []
  | .header h => h.types.flatMap primitiveMisuse
  | .statement s => c.statement around s
  | .edge _ => []
  | .expr e => c.enterExpr e
  | .type t => c.reference t

def leave (c : Context) : Node → List Remark
  | .expr e => c.leaveExpr e
  | .edge (.foreach collection _) => c.iteration collection
  | _ => []

def step (c : Context) (around : Surroundings) : Step → List Remark
  | .enter n => c.enter around n
  | .leave n => c.leave n

def remarks (c : Context) (around : Surroundings) (n : Node) : List Remark :=
  n.visit.flatMap (c.step around)

end FlowLint.Context
