import FlowLint.Tree.Basic

/-!
Mapping the parts of a layer, and folding an expression from its innermost layers outwards. The
main statement: a fold treats the layer of an expression after all expressions in it were folded.
-/

namespace FlowLint

variable {α β : Type}

def Name.map (f : α → β) : Name α → Name β
  | direct text => .direct text
  | indirect value => .indirect (f value)

def Variable.map (f : α → β) (v : Variable α) : Variable β :=
  ⟨v.name.map f, v.kind, v.maybeUninitialized⟩

def TypeName.map (f : α → β) : TypeName α → TypeName β
  | named name => .named name
  | primitive type => .primitive type
  | reserved type => .reserved type
  | indirect value => .indirect (f value)

def TypeReference.map (f : α → β) (t : TypeReference α) : TypeReference β :=
  ⟨t.name.map f, t.resolution, t.span⟩

def ArrayItem.map (f : α → β) (item : ArrayItem α) : ArrayItem β :=
  ⟨item.key.map f, f item.value⟩

def Argument.map (f : α → β) (argument : Argument α) : Argument β :=
  ⟨f argument.value, argument.unpacking⟩

def Callee.map (f : α → β) : Callee α → Callee β
  | function name => .function (name.map f)
  | method receiver name => .method (f receiver) (name.map f)
  | static type name => .static (type.map f) (name.map f)
  | new type => .new (type.map f)

def Call.map (f : α → β) (c : Call α) : Call β :=
  ⟨c.callee.map f, c.target, c.arguments.map (·.map f), c.nameSpan⟩

def FieldAccess.map (f : α → β) (field : FieldAccess α) : FieldAccess β :=
  ⟨field.receiver.map f, field.containingType.map (·.map f), field.name, field.kind⟩

def Form.map (f : α → β) : Form α → Form β
  | literal value => .literal value
  | var v => .var (v.map f)
  | assign target value => .assign (f target) (f value)
  | compoundAssign op target value => .compoundAssign op (f target) (f value)
  | array items => .array (items.map (·.map f))
  | arrayItem container index => .arrayItem (f container) (index.map f)
  | binary op left right => .binary op (f left) (f right)
  | unary op operand => .unary op (f operand)
  | conversion target operand implicit => .conversion target (f operand) implicit
  | conditional condition ifTrue ifFalse =>
    .conditional (f condition) (ifTrue.map f) (f ifFalse)
  | concat values => .concat (values.map f)
  | call c => .call (c.map f)
  | load file => .load (f file)
  | eval code => .eval (f code)
  | assert arguments => .assert (arguments.map (·.map f))
  | instanceOf operand type => .instanceOf (f operand) (type.map f)
  | field access => .field (access.map f)
  | isset values => .isset (values.map f)
  | exit status => .exit (status.map f)

variable (step : Expr → Form β → β)

mutual

/-- Gives `step` every expression together with its layer, in which the expressions are replaced by
what they were folded to. -/
def Expr.fold : Expr → β
  | ⟨form, span, mask, access, constant, hostType⟩ =>
    step ⟨form, span, mask, access, constant, hostType⟩ (foldForm form)

def Expr.foldForm : Form Expr → Form β
  | .literal value => .literal value
  | .var ⟨name, kind, maybe⟩ => .var ⟨foldName name, kind, maybe⟩
  | .assign target value => .assign target.fold value.fold
  | .compoundAssign op target value => .compoundAssign op target.fold value.fold
  | .array items => .array (foldItems items)
  | .arrayItem container index => .arrayItem container.fold (foldOption index)
  | .binary op left right => .binary op left.fold right.fold
  | .unary op operand => .unary op operand.fold
  | .conversion target operand implicit => .conversion target operand.fold implicit
  | .conditional condition ifTrue ifFalse =>
    .conditional condition.fold (foldOption ifTrue) ifFalse.fold
  | .concat values => .concat (foldList values)
  | .call ⟨callee, target, arguments, nameSpan⟩ =>
    .call ⟨foldCallee callee, target, foldArguments arguments, nameSpan⟩
  | .load file => .load file.fold
  | .eval code => .eval code.fold
  | .assert arguments => .assert (foldArguments arguments)
  | .instanceOf operand type => .instanceOf operand.fold (foldType type)
  | .field ⟨receiver, containingType, name, kind⟩ =>
    .field ⟨foldOption receiver, foldTypeOption containingType, name, kind⟩
  | .isset values => .isset (foldList values)
  | .exit status => .exit (foldOption status)

def Expr.foldName : Name Expr → Name β
  | .direct text => .direct text
  | .indirect value => .indirect value.fold

def Expr.foldTypeName : TypeName Expr → TypeName β
  | .named name => .named name
  | .primitive type => .primitive type
  | .reserved type => .reserved type
  | .indirect value => .indirect value.fold

def Expr.foldType : TypeReference Expr → TypeReference β
  | ⟨name, resolution, span⟩ => ⟨foldTypeName name, resolution, span⟩

def Expr.foldTypeOption : Option (TypeReference Expr) → Option (TypeReference β)
  | none => none
  | some type => some (foldType type)

def Expr.foldItems : List (ArrayItem Expr) → List (ArrayItem β)
  | [] => []
  | ⟨key, value⟩ :: rest => ⟨foldOption key, value.fold⟩ :: foldItems rest

def Expr.foldArguments : List (Argument Expr) → List (Argument β)
  | [] => []
  | ⟨value, unpacking⟩ :: rest => ⟨value.fold, unpacking⟩ :: foldArguments rest

def Expr.foldCallee : Callee Expr → Callee β
  | .function name => .function (foldName name)
  | .method receiver name => .method receiver.fold (foldName name)
  | .static type name => .static (foldType type) (foldName name)
  | .new type => .new (foldType type)

def Expr.foldList : List Expr → List β
  | [] => []
  | e :: rest => e.fold :: foldList rest

def Expr.foldOption : Option Expr → Option β
  | none => none
  | some e => some e.fold

end

namespace Expr

variable {step : Expr → Form β → β}

theorem foldOption_eq (o : Option Expr) : foldOption step o = o.map (fold step) := by
  cases o <;> rfl

theorem foldList_eq (es : List Expr) : foldList step es = es.map (fold step) := by
  induction es with
  | nil => rfl
  | cons e rest ih => rw [foldList, ih, List.map_cons]

theorem foldName_eq (n : Name Expr) : foldName step n = n.map (fold step) := by
  cases n <;> rfl

theorem foldType_eq (t : TypeReference Expr) : foldType step t = t.map (fold step) := by
  obtain ⟨name, resolution, span⟩ := t
  cases name <;> rfl

theorem foldTypeOption_eq (o : Option (TypeReference Expr)) :
    foldTypeOption step o = o.map (·.map (fold step)) := by
  cases o with
  | none => rfl
  | some t => rw [foldTypeOption, foldType_eq, Option.map_some]

theorem foldItems_eq (items : List (ArrayItem Expr)) :
    foldItems step items = items.map (·.map (fold step)) := by
  induction items with
  | nil => rfl
  | cons item rest ih => rw [foldItems, ih, foldOption_eq, List.map_cons, ArrayItem.map]

theorem foldArguments_eq (arguments : List (Argument Expr)) :
    foldArguments step arguments = arguments.map (·.map (fold step)) := by
  induction arguments with
  | nil => rfl
  | cons argument rest ih => rw [foldArguments, ih, List.map_cons, Argument.map]

theorem foldCallee_eq (c : Callee Expr) : foldCallee step c = c.map (fold step) := by
  cases c <;> simp only [foldCallee, Callee.map, foldName_eq, foldType_eq]

theorem foldForm_eq (f : Form Expr) : foldForm step f = f.map (fold step) := by
  cases f <;>
    simp only [foldForm, Form.map, Variable.map, Call.map, FieldAccess.map, foldOption_eq,
      foldList_eq, foldName_eq, foldType_eq, foldTypeOption_eq, foldItems_eq, foldArguments_eq,
      foldCallee_eq]

theorem fold_eq (e : Expr) : e.fold step = step e (e.form.map (fold step)) := by
  obtain ⟨form, span, mask, access, constant, hostType⟩ := e
  rw [fold, foldForm_eq]

end Expr

end FlowLint
