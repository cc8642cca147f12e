import FlowLint.Document.Value
import FlowLint.Tree.Fold

/-!
The written form of expressions. The parts of a layer are read and written by whatever the caller
hands in; expressions tie the knot, reading by the depth that the level still allows, and writing
by a fold.
-/

namespace FlowLint

open Json (Decoder)

variable {α : Type}

namespace Access

def decode : Decoder Access := .record ["read", "write", "unset", "quiet"] fun level fields => do
  let read ← fields.withDefault "read" false (Decoder.bool level)
  let write ← fields.withDefault "write" false (Decoder.bool level)
  let unset ← fields.withDefault "unset" false (Decoder.bool level)
  let quiet ← fields.withDefault "quiet" false (Decoder.bool level)
  return { read, write, unset, quiet }

def encode (a : Access) : Json :=
  .record
    [("read", .bool a.read), ("write", .bool a.write), ("unset", .bool a.unset),
     ("quiet", .bool a.quiet)]

/-- Most expressions are read and nothing else. -/
def reading : Access := ⟨true, false, false, false⟩

end Access

namespace BinaryOp

def tag : BinaryOp → String
  | add => "add"
  | sub => "sub"
  | mul => "mul"
  | div => "div"
  | mod => "mod"
  | pow => "pow"
  | concat => "concat"
  | and => "and"
  | or => "or"
  | xor => "xor"
  | bitAnd => "bit_and"
  | bitOr => "bit_or"
  | bitXor => "bit_xor"
  | shiftLeft => "shift_left"
  | shiftRight => "shift_right"
  | equal => "equal"
  | notEqual => "not_equal"
  | identical => "identical"
  | notIdentical => "not_identical"
  | lessThan => "less_than"
  | greaterThan => "greater_than"
  | lessThanOrEqual => "less_than_or_equal"
  | greaterThanOrEqual => "greater_than_or_equal"
  | spaceship => "spaceship"
  | coalesce => "coalesce"

def all : List BinaryOp :=
  [add, sub, mul, div, mod, pow, concat, and, or, xor, bitAnd, bitOr, bitXor, shiftLeft, shiftRight,
   equal, notEqual, identical, notIdentical, lessThan, greaterThan, lessThanOrEqual,
   greaterThanOrEqual, spaceship, coalesce]

def decode : Decoder BinaryOp := .plain all tag

end BinaryOp

namespace UnaryOp

def tag : UnaryOp → String
  | clone => "clone"
  | minus => "minus"
  | plus => "plus"
  | logicalNot => "logical_not"
  | bitNot => "bit_not"
  | silence => "silence"
  | print => "print"

def all : List UnaryOp := [clone, minus, plus, logicalNot, bitNot, silence, print]

def decode : Decoder UnaryOp := .plain all tag

end UnaryOp

namespace Name

def decode (part : Decoder α) : Decoder (Name α) :=
  .carrying [("direct", .map direct .string), ("indirect", .map indirect part)]

def encode (part : α → Json) : Name α → Json
  | direct text => .case "direct" (.text text)
  | indirect value => .case "indirect" (part value)

end Name

namespace VariableKind

def tag : VariableKind → String
  | ordinary => "local"
  | parameter => "parameter"
  | this => "this"
  | temporal => "temporal"
  | global => "global"

def all : List VariableKind := [ordinary, parameter, this, temporal, global]

def decode : Decoder VariableKind := .plain all tag

end VariableKind

namespace Variable

def decode (part : Decoder α) : Decoder (Variable α) :=
  .record ["name", "kind", "maybe_uninitialized"] fun level fields => do
    let name ← fields.required "name" (Name.decode part level)
    let kind ← fields.withDefault "kind" .ordinary (VariableKind.decode level)
    let maybeUninitialized ← fields.withDefault "maybe_uninitialized" false (Decoder.bool level)
    return { name, kind, maybeUninitialized }

def encode (part : α → Json) (v : Variable α) : Json :=
  .record
    [("name", v.name.encode part),
     ("kind", .text v.kind.tag),
     ("maybe_uninitialized", .bool v.maybeUninitialized)]

end Variable

namespace ReservedType

def tag : ReservedType → String
  | self => "self_type"
  | parent => "parent"
  | static => "static"

def all : List ReservedType := [self, parent, static]

def decode : Decoder ReservedType := .plain all tag

end ReservedType

namespace TypeName

def decodeNamed : Decoder (TypeName α) := .record ["name"] fun level fields => do
  let name ← fields.required "name" (Decoder.string level)
  return named name

def decode (part : Decoder α) : Decoder (TypeName α) :=
  .carrying
    [("class", decodeNamed),
     ("primitive", .map primitive Primitive.decode),
     ("reserved", .map reserved ReservedType.decode),
     ("indirect", .map indirect part)]

def encode (part : α → Json) : TypeName α → Json
  | named name => .case "class" (.record [("name", .text name)])
  | primitive type => .case "primitive" type.encode
  | reserved type => .case "reserved" (.text type.tag)
  | indirect value => .case "indirect" (part value)

end TypeName

namespace TypeResolution

def tag : TypeResolution → String
  | resolved _ => "resolved"
  | missing => "missing"
  | ambiguous => "ambiguous"
  | deferred => "deferred"

def decode : Decoder TypeResolution :=
  .choice [("resolved", .map resolved .identifier)] [missing, ambiguous, deferred] tag

def encode (r : TypeResolution) : Json :=
  match r with
  | resolved type => .case r.tag (.nat type)
  | _ => .text r.tag

end TypeResolution

namespace TypeReference

def decode (part : Decoder α) : Decoder (TypeReference α) :=
  .record ["kind", "resolution", "span"] fun level fields => do
    let name ← fields.required "kind" (TypeName.decode part level)
    let resolution ← fields.required "resolution" (TypeResolution.decode level)
    let span ← fields.optional "span" Span.decode level
    return { name, resolution, span }

def encode (part : α → Json) (t : TypeReference α) : Json :=
  .record
    [("kind", t.name.encode part),
     ("resolution", t.resolution.encode),
     ("span", .optional Span.encode t.span)]

end TypeReference

namespace ArrayItem

def decode (part : Decoder α) : Decoder (ArrayItem α) :=
  .record ["key", "value"] fun level fields => do
    let key ← fields.optional "key" part level
    let value ← fields.required "value" (part level)
    return ⟨key, value⟩

def encode (part : α → Json) (item : ArrayItem α) : Json :=
  .record [("key", .optional part item.key), ("value", part item.value)]

end ArrayItem

namespace Argument

def decode (part : Decoder α) : Decoder (Argument α) :=
  .record ["value", "unpacking"] fun level fields => do
    let value ← fields.required "value" (part level)
    let unpacking ← fields.withDefault "unpacking" false (Decoder.bool level)
    return ⟨value, unpacking⟩

def encode (part : α → Json) (argument : Argument α) : Json :=
  .record [("value", part argument.value), ("unpacking", .bool argument.unpacking)]

end Argument

namespace CallTarget

def tag : CallTarget → String
  | resolved _ => "resolved"
  | missing => "missing"
  | ambiguous _ => "ambiguous"
  | unresolved => "unresolved"

def decode : Decoder CallTarget :=
  .choice
    [("resolved", .map resolved .identifier), ("ambiguous", .map ambiguous (.list .identifier))]
    [missing, unresolved] tag

def encode (t : CallTarget) : Json :=
  match t with
  | resolved routine => .case t.tag (.nat routine)
  | ambiguous routines => .case t.tag (.list .nat routines)
  | _ => .text t.tag

end CallTarget

namespace Callee

def decodeFunction (part : Decoder α) : Decoder (Callee α) :=
  .record ["name"] fun level fields => do
    let name ← fields.required "name" (Name.decode part level)
    return function name

def decodeMethod (part : Decoder α) : Decoder (Callee α) :=
  .record ["instance", "name"] fun level fields => do
    let receiver ← fields.required "instance" (part level)
    let name ← fields.required "name" (Name.decode part level)
    return method receiver name

def decodeStatic (part : Decoder α) : Decoder (Callee α) :=
  .record ["type_ref", "name"] fun level fields => do
    let type ← fields.required "type_ref" (TypeReference.decode part level)
    let name ← fields.required "name" (Name.decode part level)
    return static type name

def decodeNew (part : Decoder α) : Decoder (Callee α) :=
  .record ["type_ref"] fun level fields => do
    let type ← fields.required "type_ref" (TypeReference.decode part level)
    return new type

def decode (part : Decoder α) : Decoder (Callee α) :=
  .carrying
    [("global", decodeFunction part),
     ("instance", decodeMethod part),
     ("static", decodeStatic part),
     ("new", decodeNew part)]

def encode (part : α → Json) : Callee α → Json
  | function name => .case "global" (.record [("name", name.encode part)])
  | method receiver name =>
    .case "instance" (.record [("instance", part receiver), ("name", name.encode part)])
  | static type name =>
    .case "static" (.record [("type_ref", type.encode part), ("name", name.encode part)])
  | new type => .case "new" (.record [("type_ref", type.encode part)])

end Callee

namespace Call

def decode (part : Decoder α) : Decoder (Call α) :=
  .record ["kind", "target", "arguments", "name_span"] fun level fields => do
    let callee ← fields.required "kind" (Callee.decode part level)
    let target ← fields.required "target" (CallTarget.decode level)
    let arguments ← fields.withDefault "arguments" [] (Decoder.list (Argument.decode part) level)
    let nameSpan ← fields.optional "name_span" Span.decode level
    return { callee, target, arguments, nameSpan }

def encode (part : α → Json) (c : Call α) : Json :=
  .record
    [("kind", c.callee.encode part),
     ("target", c.target.encode),
     ("arguments", .list (Argument.encode part) c.arguments),
     ("name_span", .optional Span.encode c.nameSpan)]

end Call

namespace FieldKind

def tag : FieldKind → String
  | object => "instance"
  | static => "static"
  | constant => "class_constant"

def all : List FieldKind := [object, static, constant]

def decode : Decoder FieldKind := .plain all tag

end FieldKind

namespace FieldAccess

def decode (part : Decoder α) : Decoder (FieldAccess α) :=
  .record ["instance", "containing_type", "name", "kind"] fun level fields => do
    let receiver ← fields.optional "instance" part level
    let containingType ← fields.optional "containing_type" (TypeReference.decode part) level
    let name ← fields.required "name" (Decoder.string level)
    let kind ← fields.withDefault "kind" .object (FieldKind.decode level)
    return { receiver, containingType, name, kind }

def encode (part : α → Json) (f : FieldAccess α) : Json :=
  .record
    [("instance", .optional part f.receiver),
     ("containing_type", .optional (TypeReference.encode part) f.containingType),
     ("name", .text f.name),
     ("kind", .text f.kind.tag)]

end FieldAccess

namespace Form

def tag : Form α → String
  | literal _ => "literal"
  | var _ => "variable"
  | assign _ _ => "assign"
  | compoundAssign _ _ _ => "compound_assign"
  | array _ => "array"
  | arrayItem _ _ => "array_item"
  | binary _ _ _ => "binary"
  | unary _ _ => "unary"
  | conversion _ _ _ => "conversion"
  | conditional _ _ _ => "conditional"
  | concat _ => "concat"
  | call _ => "call"
  | load _ => "include"
  | eval _ => "eval"
  | assert _ => "assert"
  | instanceOf _ _ => "instance_of"
  | field _ => "field_ref"
  | isset _ => "isset"
  | exit _ => "exit"

def decodeAssign (part : Decoder α) : Decoder (Form α) :=
  .record ["target", "value"] fun level fields => do
    let target ← fields.required "target" (part level)
    let value ← fields.required "value" (part level)
    return assign target value

def decodeCompoundAssign (part : Decoder α) : Decoder (Form α) :=
  .record ["op", "target", "value"] fun level fields => do
    let op ← fields.required "op" (BinaryOp.decode level)
    let target ← fields.required "target" (part level)
    let value ← fields.required "value" (part level)
    return compoundAssign op target value

def decodeArrayItem (part : Decoder α) : Decoder (Form α) :=
  .record ["array", "index"] fun level fields => do
    let container ← fields.required "array" (part level)
    let index ← fields.optional "index" part level
    return arrayItem container index

def decodeBinary (part : Decoder α) : Decoder (Form α) :=
  .record ["op", "left", "right"] fun level fields => do
    let op ← fields.required "op" (BinaryOp.decode level)
    let left ← fields.required "left" (part level)
    let right ← fields.required "right" (part level)
    return binary op left right

def decodeUnary (part : Decoder α) : Decoder (Form α) :=
  .record ["op", "operand"] fun level fields => do
    let op ← fields.required "op" (UnaryOp.decode level)
    let operand ← fields.required "operand" (part level)
    return unary op operand

def decodeConversion (part : Decoder α) : Decoder (Form α) :=
  .record ["target", "operand", "implicit"] fun level fields => do
    let target ← fields.required "target" (ValueType.decode level)
    let operand ← fields.required "operand" (part level)
    let implicit ← fields.withDefault "implicit" false (Decoder.bool level)
    return conversion target operand implicit

def decodeConditional (part : Decoder α) : Decoder (Form α) :=
  .record ["condition", "if_true", "if_false"] fun level fields => do
    let condition ← fields.required "condition" (part level)
    let ifTrue ← fields.optional "if_true" part level
    let ifFalse ← fields.required "if_false" (part level)
    return conditional condition ifTrue ifFalse

def decodeInstanceOf (part : Decoder α) : Decoder (Form α) :=
  .record ["operand", "as_type"] fun level fields => do
    let operand ← fields.required "operand" (part level)
    let type ← fields.required "as_type" (TypeReference.decode part level)
    return instanceOf operand type

def decode (part : Decoder α) : Decoder (Form α) :=
  .carrying
    [("literal", .map literal Constant.decode),
     ("variable", .map var (Variable.decode part)),
     ("assign", decodeAssign part),
     ("compound_assign", decodeCompoundAssign part),
     ("array", .map array (.list (ArrayItem.decode part))),
     ("array_item", decodeArrayItem part),
     ("binary", decodeBinary part),
     ("unary", decodeUnary part),
     ("conversion", decodeConversion part),
     ("conditional", decodeConditional part),
     ("concat", .map concat (.list part)),
     ("call", .map call (Call.decode part)),
     ("include", .map load part),
     ("eval", .map eval part),
     ("assert", .map assert (.list (Argument.decode part))),
     ("instance_of", decodeInstanceOf part),
     ("field_ref", .map field (FieldAccess.decode part)),
     ("isset", .map isset (.list part)),
     ("exit", .map exit (.optional part))]

def payload (part : α → Json) : Form α → Json
  | literal value => value.encode
  | var v => v.encode part
  | assign target value => .record [("target", part target), ("value", part value)]
  | compoundAssign op target value =>
    .record [("op", .text op.tag), ("target", part target), ("value", part value)]
  | array items => .list (ArrayItem.encode part) items
  | arrayItem container index =>
    .record [("array", part container), ("index", .optional part index)]
  | binary op left right =>
    .record [("op", .text op.tag), ("left", part left), ("right", part right)]
  | unary op operand => .record [("op", .text op.tag), ("operand", part operand)]
  | conversion target operand implicit =>
    .record [("target", target.encode), ("operand", part operand), ("implicit", .bool implicit)]
  | conditional condition ifTrue ifFalse =>
    .record
      [("condition", part condition), ("if_true", .optional part ifTrue),
       ("if_false", part ifFalse)]
  | concat values => .list part values
  | call c => c.encode part
  | load file => part file
  | eval code => part code
  | assert arguments => .list (Argument.encode part) arguments
  | instanceOf operand type =>
    .record [("operand", part operand), ("as_type", type.encode part)]
  | field f => f.encode part
  | isset values => .list part values
  | exit status => .optional part status

def encode (part : α → Json) (f : Form α) : Json := .case f.tag (f.payload part)

end Form

namespace Expr

def keys : List String := ["kind", "span", "mask", "access", "constant", "result_type"]

def decodeWithin : Nat → Decoder Expr
  | 0 => fun _ _ => none
  | depth + 1 => .record keys fun level fields => do
    let form ← fields.required "kind" (Form.decode (decodeWithin depth) level)
    let span ← fields.optional "span" Span.decode level
    let mask ← fields.withDefault "mask" .any (Mask.decode level)
    let access ← fields.withDefault "access" .reading (Access.decode level)
    let constant ← fields.optional "constant" Constant.decode level
    let hostType ← fields.optional "result_type" HostType.decode level
    return { form, span, mask, access, constant, hostType }

/-- Every expression opens a record, so that the level bounds the depth. -/
def decode : Decoder Expr := fun level => decodeWithin level level

def encodeLayer (e : Expr) (form : Form Json) : Json :=
  .record
    [("kind", form.encode id),
     ("span", .optional Span.encode e.span),
     ("mask", e.mask.encode),
     ("access", e.access.encode),
     ("constant", .optional Constant.encode e.constant),
     ("result_type", .optional HostType.encode e.hostType)]

def encode : Expr → Json := fold encodeLayer

end Expr

end FlowLint
