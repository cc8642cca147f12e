import FlowLint.Graph.Visitor
import FlowLint.Rule.Call
import FlowLint.Rule.Statement
import FlowLint.Rule.Value

/-!
The walk that applies the rules. It keeps track of the block that it is in and gathers the remarks
in the order in which they are made; most rules look at a node before its children are visited,
some after that.
-/

namespace FlowLint

structure Walk where
  current : Nat
  callsParent : Bool
  found : List Remark
  deriving DecidableEq, Repr

namespace Walk

def init : Walk := ⟨0, false, []⟩

def report (w : Walk) (rs : List Remark) : Walk := { w with found := w.found ++ rs }

def note (w : Walk) (called : Bool) : Walk := { w with callsParent := w.callsParent || called }

end Walk

namespace Context

variable (c : Context) (regions : Regions)

def surroundings (w : Walk) : Surroundings := regions.around w.current

def lookAtHeader (h : CatchHeader) (walk : Walk → Walk) (w : Walk) : Walk :=
  walk (h.types.foldl (fun w t => w.report (primitiveMisuse t)) w)

def lookAtStatement (s : Statement) (walk : Walk → Walk) (w : Walk) : Walk :=
  match s.form with
  | .return value => walk (w.report (c.returnStatement (surroundings regions w) s value))
  | .yield _ _ => walk (w.report (yieldStatement (surroundings regions w) s))
  | .declare clause => walk (w.report (declareStatement clause))
  | .expression _ | .echo _ | .unset _ | .staticVariables _ | .globals _ => walk w

def lookAtEdge (e : Edge) (walk : Walk → Walk) (w : Walk) : Walk :=
  match e with
  | .foreach collection _ => (walk w).report (c.iteration collection)
  | _ => walk w

def lookAtExpr (e : Expr) (walk : Walk → Walk) (w : Walk) : Walk :=
  match e.form with
  | .var v => walk (w.report (variableUse e v))
  | .assign target value => walk (w.report (selfAssignment e target value))
  | .array list => walk (w.report (c.arrayLiteral e list))
  | .binary op _ right =>
    let w := walk w
    if op = .div then w.report (division right) else w
  | .unary op operand =>
    let w := walk w
    if op = .clone then w.report (c.clone e operand) else w
  | .conversion target operand implicit =>
    let w := walk w
    if implicit then w else w.report (c.redundantCast e target operand)
  | .eval _ => walk (w.report (evalUse e))
  | .assert arguments => (walk w).report (c.assertion e arguments)
  | .call call =>
    let w := (w.report (c.callee e call)).note (callsParentConstructor call)
    (walk w).report (c.argumentCount e call)
  | .instanceOf _ type => walk (w.report (primitiveMisuse type))
  | .field f =>
    match f.containingType with
    | some type => walk (w.report (primitiveMisuse type))
    | none => walk w
  | .literal _ | .compoundAssign _ _ _ | .arrayItem _ _ | .conditional _ _ _ | .concat _ | .load _
  | .isset _ | .exit _ => walk w

def lookAtType (t : TypeReference Expr) (walk : Walk → Walk) (w : Walk) : Walk :=
  walk (w.report (c.reference t))

def visitor : Visitor Walk where
  block b walk w := walk { w with current := b.ordinal }
  header := lookAtHeader
  statement := c.lookAtStatement regions
  edge := c.lookAtEdge
  expr := c.lookAtExpr
  type := c.lookAtType

end Context

end FlowLint
