import FlowLint.Printf
import FlowLint.Rule.Reference
import FlowLint.Symbol.Arity

/-!
Rules about calls. Those on the callee come before the arguments are visited, the one on the number
of arguments after them.
-/

namespace FlowLint.Context

/-- The stand-in for a method whose name is computed. -/
def computedMethod : String := "\x7b\x7d"

def methodName (name : Name Expr) : String := name.direct?.getD computedMethod

/-- A call of a deprecated routine; a function is shown without its type. -/
def deprecation (c : Context) (e : Expr) (call : Call Expr) : List Remark :=
  match c.target? call.target with
  | none => []
  | some target =>
    match target.deprecation with
    | none => []
    | some message =>
      let name :=
        match call.callee with
        | .function _ => target.name
        | _ => c.symbols.memberName target
      [⟨e.span, .deprecated target.kind.name name message⟩]

/-- A number of arguments that cannot be counted is not the number of those given. -/
def formatCount (e : Expr) (call : Call Expr) (function : String) : List Remark :=
  match Printf.formatFunction? function, call.arguments.head?.bind (·.value.constant) with
  | some plain, some format =>
    remarkIf (Printf.requiredArguments format.toText != some call.arguments.length) e.span
      (.formatArgumentCount plain)
  | _, _ => []

def functionCall (c : Context) (e : Expr) (call : Call Expr) (name : Name Expr) : List Remark :=
  match name with
  | .direct function =>
    remarkIf (call.target == .missing) (call.nameSpan.or e.span) (.undefinedFunction function) ++
    c.deprecation e call ++
    formatCount e call function
  | .indirect callee =>
    remarkIf (!c.registry.maybeCallable callee.mask) e.span
      (.notCallable (c.registry.render callee.mask))

/-- The type of a receiver that can never hold an object: how the host stores it says so or, if
that is not known, its mask. -/
def nonObject? (c : Context) (receiver : Expr) : Option String :=
  match receiver.hostType with
  | some host => host.nonObjectName
  | none =>
    if receiver.mask.isDecidable && !c.registry.hasObject receiver.mask then
      some (c.registry.render receiver.mask)
    else none

/-- The declared name of the one class that a receiver may have; its rendered mask if there is more
than one, or none. -/
def receiverName (c : Context) (receiver : Expr) : String :=
  match c.registry.single? receiver.mask with
  | some (.instanceOf name symbol) => ((symbol.bind c.symbols.type?).map (·.name)).getD name
  | _ => c.registry.render receiver.mask

def methodCall (c : Context) (e : Expr) (call : Call Expr) (receiver : Expr) (name : Name Expr) :
    List Remark :=
  ((c.nonObject? receiver).toList.map fun type =>
    ⟨receiver.span, .methodOfNonObject (methodName name) type⟩) ++
  c.deprecation e call ++
  remarkIf (call.target == .missing) (call.nameSpan.or e.span)
    (.undefinedMethod (c.receiverName receiver) (methodName name))

def abstractCall (c : Context) (e : Expr) (call : Call Expr) (name : Name Expr) : List Remark :=
  match c.target? call.target with
  | none => []
  | some target =>
    remarkIf target.isAbstract e.span
      (.abstractMethodCalled (((c.symbols.ownerOf target).map (·.name)).getD "")
        (name.direct?.getD target.name))

def staticCall (c : Context) (e : Expr) (call : Call Expr) (type : TypeReference Expr)
    (name : Name Expr) : List Remark :=
  primitiveMisuse type ++
  remarkIf (call.target == .missing) (call.nameSpan.or e.span)
    (.undefinedMethod (((c.type? type).map (·.name)).getD type.text) (methodName name)) ++
  c.deprecation e call ++
  c.abstractCall e call name

def callee (c : Context) (e : Expr) (call : Call Expr) : List Remark :=
  match call.callee with
  | .function name => c.functionCall e call name
  | .method receiver name => c.methodCall e call receiver name
  | .static type name => c.staticCall e call type name
  | .new type => c.instantiation e type

def calledName (c : Context) (callee : Callee Expr) (target : RoutineSymbol) : String :=
  match callee with
  | .function _ => target.name
  | .method _ _ | .static _ _ => c.symbols.memberName target
  | .new _ =>
    "new " ++ ((c.symbols.ownerOf target).map TypeSymbol.qualifiedName).getD target.name

/-- Too few or too many arguments. If one of them is unpacked their number is not known. -/
def argumentCount (c : Context) (e : Expr) (call : Call Expr) : List Remark :=
  if call.unpacks then []
  else
    match c.target? call.target with
    | none => []
    | some target =>
      let arity := target.arity
      let given := call.arguments.length
      let routine := c.calledName call.callee target
      if given < arity.least then [⟨e.span, .missingArguments routine arity.least given⟩]
      else
        match arity.most with
        | none => []
        | some most => remarkIf (most < given) e.span (.tooManyArguments routine most given)

def callsParentConstructor (call : Call Expr) : Bool :=
  match call.callee with
  | .static type (.direct name) => type.isParent && Text.sameIgnoringCase name constructorName
  | _ => false

end FlowLint.Context
