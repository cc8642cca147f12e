import FlowLint.Graph.Basic

/-!
The visit of a tree. Every node is entered, then its children are visited from left to right, then
it is left; the visit is the list of these steps. A rule that looks at one node at a time is a
function of a step, and what it says about a tree is the concatenation over the visit.
-/

namespace FlowLint

inductive Node where
  | block (b : Block)
  | header (h : CatchHeader)
  | statement (s : Statement)
  | edge (e : Edge)
  | expr (e : Expr)
  | type (t : TypeReference Expr)

def Statement.parts (s : Statement) : List Expr :=
  match s.form with
  | .expression value => [value]
  | .return value => value.toList
  | .yield key value => key.toList ++ value.toList
  | .echo values => values
  | .unset values => values
  | .staticVariables declared => declared.flatMap fun v => v.var :: v.initial.toList
  | .globals values => values
  | .declare _ => []

def Edge.parts : Edge → List Expr
  | jump _ => []
  | loopBack _ => []
  | branch condition _ _ => [condition]
  | select value cases => value :: cases.flatMap fun c => c.label.toList
  | foreach collection _ => [collection]
  | foreachNext key value _ _ => key.toList ++ [value]
  | guarded _ => []

namespace Node

def ofPart : Part Expr → Node
  | .expr e => expr e
  | .type t => type t

/-- The children from left to right. A block has its catch header, its statements and its edge. -/
def children : Node → List Node
  | block b =>
    (match b.kind with
      | .handler h => [header h]
      | _ => []) ++ b.statements.map statement ++ b.edge.toList.map edge
  | header h => h.types.map type ++ h.caught.toList.map expr
  | statement s => s.parts.map expr
  | edge e => e.parts.map expr
  | expr e => e.form.parts.map ofPart
  | type t => t.parts.map ofPart

end Node

theorem Option.sizeOf_toList_lt {α : Type} [SizeOf α] {o : Option α} {a : α}
    (member : a ∈ o.toList) : sizeOf a < sizeOf o := by
  cases o with
  | none => simp at member
  | some b =>
    rw [Option.toList_some, List.mem_singleton] at member
    rw [member, Option.some.sizeOf_spec]
    omega

theorem Name.sizeOf_part_le {n : Name Expr} {p : Part Expr} (member : p ∈ n.parts) :
    sizeOf p ≤ sizeOf n := by
  cases n with
  | direct => simp [parts] at member
  | indirect value =>
    rw [parts, List.mem_singleton] at member
    exact Nat.le_of_eq (by rw [member, Part.expr.sizeOf_spec, Name.indirect.sizeOf_spec])

theorem TypeReference.sizeOf_part_lt {t : TypeReference Expr} {p : Part Expr}
    (member : p ∈ t.parts) : sizeOf p < sizeOf t := by
  obtain ⟨name, resolution, span⟩ := t
  cases name with
  | indirect value =>
    have same : p = .expr value := List.mem_singleton.1 member
    rw [same, Part.expr.sizeOf_spec, TypeReference.mk.sizeOf_spec, TypeName.indirect.sizeOf_spec]
    omega
  | _ => simp [parts] at member

theorem Callee.sizeOf_part_le {c : Callee Expr} {p : Part Expr} (member : p ∈ c.parts) :
    sizeOf p ≤ sizeOf c := by
  cases c with
  | function name =>
    have := Name.sizeOf_part_le member
    rw [function.sizeOf_spec]
    omega
  | method receiver name =>
    rw [method.sizeOf_spec]
    rcases List.mem_cons.1 member with rfl | member
    · rw [Part.expr.sizeOf_spec]
      omega
    · have := Name.sizeOf_part_le member
      omega
  | static type name =>
    rw [static.sizeOf_spec]
    rcases List.mem_cons.1 member with rfl | member
    · rw [Part.type.sizeOf_spec]
      omega
    · have := Name.sizeOf_part_le member
      omega
  | new type =>
    exact Nat.le_of_eq
      (by rw [List.mem_singleton.1 member, new.sizeOf_spec, Part.type.sizeOf_spec])

theorem Argument.sizeOf_part_lt {arguments : List (Argument Expr)} {p : Part Expr}
    (member : p ∈ arguments.map (.expr ·.value)) : sizeOf p < sizeOf arguments := by
  obtain ⟨⟨value, unpacking⟩, present, rfl⟩ := List.mem_map.1 member
  have less := List.sizeOf_lt_of_mem present
  rw [Argument.mk.sizeOf_spec] at less
  change sizeOf (Part.expr value) < _
  rw [Part.expr.sizeOf_spec]
  omega

theorem Expr.sizeOf_part_le_of_mem {es : List Expr} {p : Part Expr}
    (member : p ∈ es.map Part.expr) : sizeOf p ≤ sizeOf es := by
  obtain ⟨e, present, rfl⟩ := List.mem_map.1 member
  have := List.sizeOf_lt_of_mem present
  rw [Part.expr.sizeOf_spec]
  omega

theorem Expr.sizeOf_part_le_of_option {o : Option Expr} {p : Part Expr}
    (member : p ∈ o.toList.map Part.expr) : sizeOf p ≤ sizeOf o := by
  obtain ⟨e, present, rfl⟩ := List.mem_map.1 member
  have := Option.sizeOf_toList_lt present
  rw [Part.expr.sizeOf_spec]
  omega

theorem ArrayItem.sizeOf_part_lt {item : ArrayItem Expr} {p : Part Expr}
    (member : p ∈ item.key.toList.map Part.expr ++ [Part.expr item.value]) :
    sizeOf p < sizeOf item := by
  obtain ⟨key, value⟩ := item
  rw [ArrayItem.mk.sizeOf_spec]
  rcases List.mem_append.1 member with member | member
  · have : sizeOf p ≤ sizeOf key := Expr.sizeOf_part_le_of_option member
    omega
  · have positive : 0 < sizeOf key := by
      cases key
      · decide
      · rw [Option.some.sizeOf_spec]
        omega
    rw [List.mem_singleton.1 member]
    change sizeOf (Part.expr value) < _
    rw [Part.expr.sizeOf_spec]
    omega

theorem Part.sizeOf_lt_of_mem_pair {a b : Expr} {p : Part Expr} {size : Nat}
    (member : p ∈ [Part.expr a, Part.expr b]) (first : sizeOf a < size) (second : sizeOf b < size) :
    sizeOf p < 1 + size := by
  rcases List.mem_cons.1 member with rfl | member
  · rw [Part.expr.sizeOf_spec]
    omega
  · rw [List.mem_singleton.1 member, Part.expr.sizeOf_spec]
    omega

theorem Form.sizeOf_part_lt {f : Form Expr} {p : Part Expr} (member : p ∈ f.parts) :
    sizeOf p < 1 + sizeOf f := by
  cases f with
  | literal => simp [parts] at member
  | var v =>
    obtain ⟨name, kind, maybe⟩ := v
    have : sizeOf p ≤ sizeOf name := Name.sizeOf_part_le member
    rw [var.sizeOf_spec, Variable.mk.sizeOf_spec]
    omega
  | array items =>
    obtain ⟨item, present, member⟩ := List.mem_flatMap.1 member
    have := ArrayItem.sizeOf_part_lt member
    have := List.sizeOf_lt_of_mem present
    rw [array.sizeOf_spec]
    omega
  | arrayItem container index =>
    rw [arrayItem.sizeOf_spec]
    rcases List.mem_cons.1 member with rfl | member
    · rw [Part.expr.sizeOf_spec]
      omega
    · have := Expr.sizeOf_part_le_of_option member
      omega
  | conditional condition ifTrue ifFalse =>
    rw [conditional.sizeOf_spec]
    rcases List.mem_cons.1 member with rfl | member
    · rw [Part.expr.sizeOf_spec]
      omega
    · rcases List.mem_append.1 member with member | member
      · have := Expr.sizeOf_part_le_of_option member
        omega
      · rw [List.mem_singleton.1 member, Part.expr.sizeOf_spec]
        omega
  | concat values =>
    have := Expr.sizeOf_part_le_of_mem member
    rw [concat.sizeOf_spec]
    omega
  | isset values =>
    have := Expr.sizeOf_part_le_of_mem member
    rw [isset.sizeOf_spec]
    omega
  | exit status =>
    have := Expr.sizeOf_part_le_of_option member
    rw [exit.sizeOf_spec]
    omega
  | call c =>
    obtain ⟨callee, target, arguments, nameSpan⟩ := c
    rw [call.sizeOf_spec, Call.mk.sizeOf_spec]
    rcases List.mem_append.1 member with member | member
    · have : sizeOf p ≤ sizeOf callee := Callee.sizeOf_part_le member
      omega
    · have : sizeOf p < sizeOf arguments := Argument.sizeOf_part_lt member
      omega
  | assert arguments =>
    have := Argument.sizeOf_part_lt member
    rw [assert.sizeOf_spec]
    omega
  | field f =>
    obtain ⟨receiver, containingType, name, kind⟩ := f
    rw [field.sizeOf_spec, FieldAccess.mk.sizeOf_spec]
    rcases List.mem_append.1 member with member | member
    · have : sizeOf p ≤ sizeOf receiver := Expr.sizeOf_part_le_of_option member
      omega
    · obtain ⟨type, present, rfl⟩ := List.mem_map.1 member
      have : sizeOf type < sizeOf containingType := Option.sizeOf_toList_lt present
      rw [Part.type.sizeOf_spec]
      omega
  | assign target value =>
    rw [assign.sizeOf_spec]
    exact Part.sizeOf_lt_of_mem_pair member (by omega) (by omega)
  | compoundAssign op target value =>
    rw [compoundAssign.sizeOf_spec]
    exact Part.sizeOf_lt_of_mem_pair member (by omega) (by omega)
  | binary op left right =>
    rw [binary.sizeOf_spec]
    exact Part.sizeOf_lt_of_mem_pair member (by omega) (by omega)
  | instanceOf operand type =>
    rw [instanceOf.sizeOf_spec]
    rcases List.mem_cons.1 member with rfl | member
    · rw [Part.expr.sizeOf_spec]
      omega
    · rw [List.mem_singleton.1 member, Part.type.sizeOf_spec]
      omega
  | unary op operand =>
    rw [List.mem_singleton.1 member, unary.sizeOf_spec, Part.expr.sizeOf_spec]
    omega
  | conversion target operand implicit =>
    rw [List.mem_singleton.1 member, conversion.sizeOf_spec, Part.expr.sizeOf_spec]
    omega
  | load file =>
    rw [List.mem_singleton.1 member, load.sizeOf_spec, Part.expr.sizeOf_spec]
    omega
  | eval code =>
    rw [List.mem_singleton.1 member, eval.sizeOf_spec, Part.expr.sizeOf_spec]
    omega

theorem StaticVariable.sizeOf_part_lt {v : StaticVariable} {e : Expr}
    (member : e ∈ v.var :: v.initial.toList) : sizeOf e < sizeOf v := by
  obtain ⟨var, initial⟩ := v
  rw [StaticVariable.mk.sizeOf_spec]
  rcases List.mem_cons.1 member with rfl | member
  · omega
  · have : sizeOf e < sizeOf initial := Option.sizeOf_toList_lt member
    omega

theorem Statement.sizeOf_part_lt {s : Statement} {e : Expr} (member : e ∈ s.parts) :
    sizeOf e < sizeOf s := by
  obtain ⟨form, span⟩ := s
  rw [Statement.mk.sizeOf_spec]
  cases form with
  | expression value =>
    rw [List.mem_singleton.1 member, StatementForm.expression.sizeOf_spec]
    omega
  | «return» value =>
    have : sizeOf e < sizeOf value := Option.sizeOf_toList_lt member
    rw [StatementForm.return.sizeOf_spec]
    omega
  | yield key value =>
    rw [StatementForm.yield.sizeOf_spec]
    rcases List.mem_append.1 member with member | member
    · have := Option.sizeOf_toList_lt member
      omega
    · have := Option.sizeOf_toList_lt member
      omega
  | echo values =>
    have : sizeOf e < sizeOf values := List.sizeOf_lt_of_mem member
    rw [StatementForm.echo.sizeOf_spec]
    omega
  | unset values =>
    have : sizeOf e < sizeOf values := List.sizeOf_lt_of_mem member
    rw [StatementForm.unset.sizeOf_spec]
    omega
  | globals values =>
    have : sizeOf e < sizeOf values := List.sizeOf_lt_of_mem member
    rw [StatementForm.globals.sizeOf_spec]
    omega
  | staticVariables declared =>
    obtain ⟨v, present, member⟩ := List.mem_flatMap.1 member
    have := List.sizeOf_lt_of_mem present
    have := StaticVariable.sizeOf_part_lt member
    rw [StatementForm.staticVariables.sizeOf_spec]
    omega
  | declare => simp [parts] at member

theorem SwitchCase.sizeOf_label_lt {c : SwitchCase} {e : Expr} (member : e ∈ c.label.toList) :
    sizeOf e < sizeOf c := by
  obtain ⟨label, target⟩ := c
  have : sizeOf e < sizeOf label := Option.sizeOf_toList_lt member
  rw [SwitchCase.mk.sizeOf_spec]
  omega

theorem Edge.sizeOf_part_lt {edge : Edge} {e : Expr} (member : e ∈ edge.parts) :
    sizeOf e < sizeOf edge := by
  cases edge with
  | jump => simp [parts] at member
  | loopBack => simp [parts] at member
  | guarded => simp [parts] at member
  | branch condition whenTrue whenFalse =>
    rw [List.mem_singleton.1 member, branch.sizeOf_spec]
    omega
  | foreach collection target =>
    rw [List.mem_singleton.1 member, foreach.sizeOf_spec]
    omega
  | select value cases =>
    rw [select.sizeOf_spec]
    rcases List.mem_cons.1 member with rfl | member
    · omega
    · obtain ⟨c, present, member⟩ := List.mem_flatMap.1 member
      have := List.sizeOf_lt_of_mem present
      have := SwitchCase.sizeOf_label_lt member
      omega
  | foreachNext key value body next =>
    rw [foreachNext.sizeOf_spec]
    rcases List.mem_append.1 member with member | member
    · have := Option.sizeOf_toList_lt member
      omega
    · rw [List.mem_singleton.1 member]
      omega

namespace Node

theorem sizeOf_ofPart (p : Part Expr) : sizeOf (ofPart p) = sizeOf p := by
  cases p with
  | expr e => rw [ofPart, expr.sizeOf_spec, Part.expr.sizeOf_spec]
  | type t => rw [ofPart, type.sizeOf_spec, Part.type.sizeOf_spec]

theorem sizeOf_child_lt {n c : Node} (member : c ∈ n.children) : sizeOf c < sizeOf n := by
  cases n with
  | block b =>
    obtain ⟨ordinal, kind, statements, edge⟩ := b
    rw [block.sizeOf_spec, Block.mk.sizeOf_spec]
    rcases List.mem_append.1 member with member | member
    · rcases List.mem_append.1 member with member | member
      · cases kind with
        | handler h =>
          rw [List.mem_singleton.1 member, header.sizeOf_spec, BlockKind.handler.sizeOf_spec]
          omega
        | _ => simp at member
      · obtain ⟨s, present, rfl⟩ := List.mem_map.1 member
        have : sizeOf s < sizeOf statements := List.sizeOf_lt_of_mem present
        rw [statement.sizeOf_spec]
        omega
    · obtain ⟨e, present, rfl⟩ := List.mem_map.1 member
      have : sizeOf e < sizeOf edge := Option.sizeOf_toList_lt present
      rw [Node.edge.sizeOf_spec]
      omega
  | header h =>
    obtain ⟨types, caught⟩ := h
    rw [header.sizeOf_spec, CatchHeader.mk.sizeOf_spec]
    rcases List.mem_append.1 member with member | member
    · obtain ⟨t, present, rfl⟩ := List.mem_map.1 member
      have : sizeOf t < sizeOf types := List.sizeOf_lt_of_mem present
      rw [type.sizeOf_spec]
      omega
    · obtain ⟨e, present, rfl⟩ := List.mem_map.1 member
      have : sizeOf e < sizeOf caught := Option.sizeOf_toList_lt present
      rw [expr.sizeOf_spec]
      omega
  | statement s =>
    obtain ⟨e, present, rfl⟩ := List.mem_map.1 member
    have := Statement.sizeOf_part_lt present
    rw [expr.sizeOf_spec, statement.sizeOf_spec]
    omega
  | edge edge =>
    obtain ⟨e, present, rfl⟩ := List.mem_map.1 member
    have := Edge.sizeOf_part_lt present
    rw [expr.sizeOf_spec, Node.edge.sizeOf_spec]
    omega
  | expr e =>
    obtain ⟨form, span, mask, access, constant, hostType⟩ := e
    obtain ⟨p, present, rfl⟩ := List.mem_map.1 member
    have : sizeOf p < 1 + sizeOf form := Form.sizeOf_part_lt present
    rw [sizeOf_ofPart, expr.sizeOf_spec, Expr.mk.sizeOf_spec]
    omega
  | type t =>
    obtain ⟨p, present, rfl⟩ := List.mem_map.1 member
    have := TypeReference.sizeOf_part_lt present
    rw [sizeOf_ofPart, type.sizeOf_spec]
    omega

end Node

inductive Step where
  | enter (n : Node)
  | leave (n : Node)

def Node.visit (n : Node) : List Step :=
  .enter n :: (n.children.attach.flatMap fun ⟨c, _⟩ => c.visit) ++ [.leave n]
termination_by sizeOf n
decreasing_by exact sizeOf_child_lt ‹_›

theorem Node.visit_eq (n : Node) :
    n.visit = .enter n :: n.children.flatMap visit ++ [.leave n] := by
  rw [visit, List.flatMap_subtype fun _ _ => rfl, List.unattach_attach]

def Step.entered? : Step → Option Node
  | enter n => some n
  | leave _ => none

/-- The nodes that the visit of a node enters: itself and all that it contains. -/
def Node.entered (n : Node) : List Node := n.visit.filterMap Step.entered?

theorem Node.entered_eq (n : Node) : n.entered = n :: n.children.flatMap entered := by
  have last : [Step.leave n].filterMap Step.entered? = [] := rfl
  rw [entered, visit_eq, List.filterMap_append, last, List.append_nil, List.filterMap_cons,
    List.filterMap_flatMap]
  rfl

/-- Induction on nodes: a property of all children passes on to the node. -/
theorem Node.induction {motive : Node → Prop}
    (step : ∀ n, (∀ c ∈ n.children, motive c) → motive n) (n : Node) : motive n :=
  step n fun c _ => induction step c
termination_by sizeOf n
decreasing_by exact sizeOf_child_lt ‹_›

end FlowLint
