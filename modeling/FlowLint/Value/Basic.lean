/-!
The types of values: what an expression may hold at run time, how the host stores it, and the
primitive names that a program can write.
-/

namespace FlowLint

/-- A position in the list of declared types. -/
abbrev TypeId := Nat

/-- A type that a value may have at run time. Classes of the same name that are bound to different
declarations are different types. -/
inductive ValueType where
  | null
  | boolean
  | integer
  | double
  | string
  | writableString
  | array
  | resource
  | callable
  | iterable
  | object
  | instanceOf (className : String) (symbol : Option TypeId)
  deriving DecidableEq, Repr

namespace ValueType

def isString : ValueType → Bool
  | string | writableString => true
  | _ => false

def isObject : ValueType → Bool
  | object | instanceOf _ _ => true
  | _ => false

def isArray : ValueType → Bool
  | array | iterable => true
  | _ => false

/-- Values of this type are accepted as array keys without a warning. -/
def isKey : ValueType → Bool
  | null | boolean | integer | double | string | writableString => true
  | _ => false

/-- Values of this type may name something that can be called: a function, a method of an object,
a closure. -/
def maybeCallable (t : ValueType) : Bool :=
  t.isString || t.isObject || t == array || t == callable

def name : ValueType → String
  | null => "null"
  | boolean => "bool"
  | integer => "int"
  | double => "float"
  | string | writableString => "string"
  | array => "array"
  | resource => "resource"
  | callable => "callable"
  | iterable => "iterable"
  | object => "object"
  | instanceOf className _ => className

end ValueType

/-- How the host stores a value whose storage is known. -/
inductive HostType where
  | void
  | int32
  | int64
  | double
  | boolean
  | string
  | languageString
  | languageArray
  | languageNumber
  | languageResource
  | languageValue
  | arrayInterface
  | callableInterface
  | object (type : TypeId)
  deriving DecidableEq, Repr

/-- The name of what is stored, for storage that can never hold an object. -/
def HostType.nonObjectName : HostType → Option String
  | .void => some "void"
  | .int32 | .int64 => some "int"
  | .double => some "float"
  | .boolean => some "bool"
  | .string | .languageString => some "string"
  | .languageNumber => some "number"
  | .languageArray | .arrayInterface => some "array"
  | .languageResource => some "resource"
  | .callableInterface => some "callable"
  | .languageValue | .object _ => none

/-- Type names that a hint may use but that are no classes. -/
inductive Primitive where
  | bool
  | int
  | float
  | string
  | array
  | callable
  | iterable
  | object
  | void
  | mixed
  | null
  | false
  deriving DecidableEq, Repr

def Primitive.name : Primitive → String
  | bool => "bool"
  | int => "int"
  | float => "float"
  | string => "string"
  | array => "array"
  | callable => "callable"
  | iterable => "iterable"
  | object => "object"
  | void => "void"
  | mixed => "mixed"
  | null => "null"
  | false => "false"

end FlowLint
