import FlowLint.Constant
import FlowLint.Symbol.Basic
import FlowLint.Value.Mask

/-!
Bound expressions. `Form α` is one layer of an expression whose parts are of type `α`; an `Expr`
is a layer over expressions, with what the binder found out about its value. The parts of a layer,
in the order in which they are visited, are expressions and references to types.
-/

namespace FlowLint

/-- How the context uses the value of an expression. -/
structure Access where
  read : Bool
  write : Bool
  unset : Bool
  /-- A missing value is not worth a report. -/
  quiet : Bool
  deriving DecidableEq, Repr

/-- The value is computed and thrown away. -/
def Access.isNone (a : Access) : Bool := !a.read && !a.write && !a.unset

inductive BinaryOp where
  | add | sub | mul | div | mod | pow | concat
  | and | or | xor | bitAnd | bitOr | bitXor | shiftLeft | shiftRight
  | equal | notEqual | identical | notIdentical
  | lessThan | greaterThan | lessThanOrEqual | greaterThanOrEqual
  | spaceship | coalesce
  deriving DecidableEq, Repr

inductive UnaryOp where
  | clone | minus | plus | logicalNot | bitNot | silence | print
  deriving DecidableEq, Repr

/-- A name that is written down, or computed when the program runs. -/
inductive Name (α : Type) where
  | direct (text : String)
  | indirect (value : α)

def Name.direct? {α : Type} : Name α → Option String
  | direct text => some text
  | indirect _ => none

inductive VariableKind where
  | ordinary
  | parameter
  | this
  /-- Made up by the compiler and never reported. -/
  | temporal
  | global
  deriving DecidableEq, Repr

structure Variable (α : Type) where
  name : Name α
  kind : VariableKind
  /-- Some path reaches the expression without an assignment. -/
  maybeUninitialized : Bool

def Variable.isLocal {α : Type} (v : Variable α) : Bool :=
  v.kind == .ordinary || v.kind == .parameter

inductive ReservedType where
  | self
  | parent
  | static
  deriving DecidableEq, Repr

inductive TypeName (α : Type) where
  | named (name : String)
  | primitive (type : Primitive)
  | reserved (type : ReservedType)
  | indirect (value : α)

/-- What the binder made of a type name. -/
inductive TypeResolution where
  | resolved (type : TypeId)
  | missing
  /-- Several declarations match; that is reported where they are. -/
  | ambiguous
  /-- Known only when the program runs. -/
  | deferred
  deriving DecidableEq, Repr

structure TypeReference (α : Type) where
  name : TypeName α
  resolution : TypeResolution
  span : Option Span

namespace TypeReference

variable {α : Type}

def resolved? (t : TypeReference α) : Option TypeId :=
  match t.resolution with
  | .resolved id => some id
  | _ => none

def isParent (t : TypeReference α) : Bool :=
  match t.name with
  | .reserved .parent => true
  | _ => false

/-- The name as messages show it; a computed name has a stand-in. -/
def text (t : TypeReference α) : String :=
  match t.name with
  | .named name => name
  | .primitive type => type.name
  | .reserved .self => "self"
  | .reserved .parent => "parent"
  | .reserved .static => "static"
  | .indirect _ => "\x7bindirect\x7d"

end TypeReference

structure ArrayItem (α : Type) where
  key : Option α
  value : α

structure Argument (α : Type) where
  value : α
  /-- The argument stands for all elements of its value. -/
  unpacking : Bool

/-- What the binder made of the name of a called routine. -/
inductive CallTarget where
  | resolved (routine : RoutineId)
  /-- No routine has that name. -/
  | missing
  | ambiguous (routines : List RoutineId)
  /-- Known only when the program runs. -/
  | unresolved
  deriving DecidableEq, Repr

def CallTarget.resolved? : CallTarget → Option RoutineId
  | resolved id => some id
  | _ => none

inductive Callee (α : Type) where
  | function (name : Name α)
  | method (receiver : α) (name : Name α)
  | static (type : TypeReference α) (name : Name α)
  | new (type : TypeReference α)

structure Call (α : Type) where
  callee : Callee α
  target : CallTarget
  arguments : List (Argument α)
  nameSpan : Option Span

def Call.unpacks {α : Type} (c : Call α) : Bool := c.arguments.any Argument.unpacking

inductive FieldKind where
  | object
  | static
  | constant
  deriving DecidableEq, Repr

structure FieldAccess (α : Type) where
  receiver : Option α
  containingType : Option (TypeReference α)
  name : String
  kind : FieldKind

/-- One layer of an expression. -/
inductive Form (α : Type) where
  | literal (value : Constant)
  | var (v : Variable α)
  | assign (target value : α)
  | compoundAssign (op : BinaryOp) (target value : α)
  | array (items : List (ArrayItem α))
  | arrayItem (container : α) (index : Option α)
  | binary (op : BinaryOp) (left right : α)
  | unary (op : UnaryOp) (operand : α)
  | conversion (target : ValueType) (operand : α) (implicit : Bool)
  | conditional (condition : α) (ifTrue : Option α) (ifFalse : α)
  | concat (values : List α)
  | call (call : Call α)
  | load (file : α)
  | eval (code : α)
  | assert (arguments : List (Argument α))
  | instanceOf (operand : α) (type : TypeReference α)
  | field (field : FieldAccess α)
  | isset (values : List α)
  | exit (status : Option α)

structure Expr where
  form : Form Expr
  span : Option Span
  mask : Mask
  access : Access
  constant : Option Constant
  hostType : Option HostType

inductive Part (α : Type) where
  | expr (value : α)
  | type (reference : TypeReference α)

namespace Name

variable {α : Type}

def parts : Name α → List (Part α)
  | direct _ => []
  | indirect value => [.expr value]

end Name

def TypeReference.parts {α : Type} (t : TypeReference α) : List (Part α) :=
  match t.name with
  | .indirect value => [.expr value]
  | _ => []

def Callee.parts {α : Type} : Callee α → List (Part α)
  | function name => name.parts
  | method receiver name => .expr receiver :: name.parts
  | static type name => .type type :: name.parts
  | new type => [.type type]

def Form.parts {α : Type} : Form α → List (Part α)
  | literal _ => []
  | var v => v.name.parts
  | assign target value => [.expr target, .expr value]
  | compoundAssign _ target value => [.expr target, .expr value]
  | array items => items.flatMap fun item => item.key.toList.map .expr ++ [.expr item.value]
  | arrayItem container index => .expr container :: index.toList.map .expr
  | binary _ left right => [.expr left, .expr right]
  | unary _ operand => [.expr operand]
  | conversion _ operand _ => [.expr operand]
  | conditional condition ifTrue ifFalse =>
    .expr condition :: ifTrue.toList.map .expr ++ [.expr ifFalse]
  | concat values => values.map .expr
  | call c => c.callee.parts ++ c.arguments.map (.expr ·.value)
  | load file => [.expr file]
  | eval code => [.expr code]
  | assert arguments => arguments.map (.expr ·.value)
  | instanceOf operand type => [.expr operand, .type type]
  | field f => f.receiver.toList.map .expr ++ f.containingType.toList.map .type
  | isset values => values.map .expr
  | exit status => status.toList.map .expr

end FlowLint
