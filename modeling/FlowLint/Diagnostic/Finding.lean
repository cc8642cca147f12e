/-!
Everything that can be reported: each finding with its code, its severity and its message.
-/

namespace FlowLint

inductive Severity where
  | info
  | warning
  | error
  deriving DecidableEq, Repr

namespace Severity

def name : Severity → String
  | info => "info"
  | warning => "warning"
  | error => "error"

def all : List Severity := [info, warning, error]

def rank : Severity → Nat
  | info => 0
  | warning => 1
  | error => 2

instance : LE Severity := ⟨fun a b => a.rank ≤ b.rank⟩

instance (a b : Severity) : Decidable (a ≤ b) := inferInstanceAs (Decidable (a.rank ≤ b.rank))

/-- The severity of that name; case matters. -/
def ofName? (s : String) : Option Severity := all.find? (·.name == s)

end Severity

inductive Finding where
  | undefinedLabel (label : String)
  | redefinedLabel (label : String)
  | parentOfParentless
  | primitiveMisused (typeName : String)
  | notInstantiable (kind typeName : String)
  | closureInstantiated (typeName : String)
  | voidReturnsValue
  | notImplemented (feature : String)
  | assignmentToThis
  | abstractMethodCalled (typeName method : String)
  | notCallable (typeText : String)
  | unreachableCode
  | valueNotRead
  | illegalKeyType (typeText : String)
  | duplicateKey (key : String)
  | undefinedType (typeName : String)
  | parentConstructorNotCalled (typeName : String)
  | toStringWithoutString (typeName : String)
  | selfAssignment
  | missingArguments (routine : String) (expected given : Nat)
  | tooManyArguments (routine : String) (expected given : Nat)
  | undefinedFunction (name : String)
  | undefinedMethod (typeName method : String)
  | deprecated (kind name message : String)
  | uninitializedVariable (name : String)
  | assertionFails
  | assertionOfString
  | cloneOfNonObject (typeText : String)
  | divisionByZero
  | methodOfNonObject (method typeText : String)
  | foreachOverNonIterable (typeText : String)
  | formatArgumentCount (function : String)
  | ignored (feature : String)
  | redundantCast
  | classNameCase (used declared : String)
  | evalUsed
  deriving DecidableEq, Repr

namespace Finding

/-- An identifier that does not depend on the wording. -/
def code : Finding → String
  | undefinedLabel _ => "E0101"
  | redefinedLabel _ => "E0102"
  | parentOfParentless => "E0103"
  | primitiveMisused _ => "E0104"
  | notInstantiable _ _ => "E0105"
  | closureInstantiated _ => "E0106"
  | voidReturnsValue => "E0107"
  | notImplemented _ => "E0108"
  | assignmentToThis => "E0109"
  | abstractMethodCalled _ _ => "E0110"
  | notCallable _ => "E0111"
  | unreachableCode => "W0201"
  | valueNotRead => "W0202"
  | illegalKeyType _ => "W0203"
  | duplicateKey _ => "W0204"
  | undefinedType _ => "W0205"
  | parentConstructorNotCalled _ => "W0206"
  | toStringWithoutString _ => "W0207"
  | selfAssignment => "W0208"
  | missingArguments _ _ _ => "W0209"
  | tooManyArguments _ _ _ => "W0210"
  | undefinedFunction _ => "W0211"
  | undefinedMethod _ _ => "W0212"
  | deprecated _ _ _ => "W0213"
  | uninitializedVariable _ => "W0214"
  | assertionFails => "W0215"
  | assertionOfString => "W0216"
  | cloneOfNonObject _ => "W0217"
  | divisionByZero => "W0218"
  | methodOfNonObject _ _ => "W0219"
  | foreachOverNonIterable _ => "W0220"
  | formatArgumentCount _ => "W0221"
  | ignored _ => "I0301"
  | redundantCast => "I0302"
  | classNameCase _ _ => "I0303"
  | evalUsed => "I0304"

def severity : Finding → Severity
  | undefinedLabel _ | redefinedLabel _ | parentOfParentless | primitiveMisused _
  | notInstantiable _ _ | closureInstantiated _ | voidReturnsValue | notImplemented _
  | assignmentToThis | abstractMethodCalled _ _ | notCallable _ => .error
  | unreachableCode | valueNotRead | illegalKeyType _ | duplicateKey _ | undefinedType _
  | parentConstructorNotCalled _ | toStringWithoutString _ | selfAssignment
  | missingArguments _ _ _ | tooManyArguments _ _ _ | undefinedFunction _ | undefinedMethod _ _
  | deprecated _ _ _ | uninitializedVariable _ | assertionFails | assertionOfString
  | cloneOfNonObject _ | divisionByZero | methodOfNonObject _ _ | foreachOverNonIterable _
  | formatArgumentCount _ => .warning
  | ignored _ | redundantCast | classNameCase _ _ | evalUsed => .info

def message : Finding → String
  | undefinedLabel label => s!"'goto' to undefined label '{label}'"
  | redefinedLabel label => s!"Label '{label}' already defined"
  | parentOfParentless => "Cannot use \"parent\" when current class scope has no parent"
  | primitiveMisused typeName => s!"Primitive type '{typeName}' cannot be used here"
  | notInstantiable kind typeName => s!"Cannot instantiate {kind} {typeName}"
  | closureInstantiated typeName => s!"Instantiation of '{typeName}' is not allowed"
  | voidReturnsValue => "A void function must not return a value"
  | notImplemented feature => s!"Not yet implemented: {feature}"
  | assignmentToThis => "Cannot re-assign $this"
  | abstractMethodCalled typeName method => s!"Cannot call abstract method {typeName}::{method}()"
  | notCallable typeText => s!"Value of type '{typeText}' cannot be used as a function name"
  | unreachableCode => "Unreachable code detected"
  | valueNotRead => "The expression is not being read. Did you mean to assign it somewhere?"
  | illegalKeyType typeText => s!"Illegal array key type '{typeText}'"
  | duplicateKey key => s!"Duplicate array key '{key}'"
  | undefinedType typeName => s!"Type '{typeName}' is not defined"
  | parentConstructorNotCalled typeName =>
    s!"Missing call to parent::__construct() in {typeName}"
  | toStringWithoutString typeName => s!"{typeName}::__toString() must return a string value"
  | selfAssignment => "Assignment made to same variable"
  | missingArguments routine expected given =>
    s!"{routine}() expects at least {expected} arguments, {given} given"
  | tooManyArguments routine expected given =>
    s!"{routine}() expects at most {expected} arguments, {given} given"
  | undefinedFunction name => s!"Call to undefined function {name}()"
  | undefinedMethod typeName method => s!"Call to undefined method {typeName}::{method}()"
  | deprecated kind name message => s!"{kind} '{name}' is deprecated: {message}"
  | uninitializedVariable name => s!"Variable ${name} might not be initialized"
  | assertionFails => "Assertion will always fail"
  | assertionOfString => "Calling assert() with a string argument is deprecated"
  | cloneOfNonObject typeText => s!"__clone method called on non-object of type '{typeText}'"
  | divisionByZero => "Division by zero"
  | methodOfNonObject method typeText =>
    s!"Method {method}() called on non-object of type '{typeText}'"
  | foreachOverNonIterable typeText => s!"Foreach over value of non-iterable type '{typeText}'"
  | formatArgumentCount function =>
    s!"Wrong number of arguments with respect to the format string in {function}()"
  | ignored feature => s!"{feature} is not yet implemented and will be ignored"
  | redundantCast => "Redundant cast"
  | classNameCase used declared =>
    s!"Class name '{used}' differs in case from its declaration '{declared}'"
  | evalUsed => "eval() is discouraged"

end Finding

end FlowLint
