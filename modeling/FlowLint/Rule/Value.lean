import FlowLint.Rule.Basic

namespace FlowLint.Context

/-- A read before any assignment, and an assignment to the current instance. -/
def variableUse (e : Expr) (v : Variable Expr) : List Remark :=
  if v.kind = .temporal then []
  else
    (match v.name with
      | .direct name =>
        remarkIf (v.maybeUninitialized && !e.access.quiet && e.span.isSome) e.span
          (.uninitializedVariable name)
      | .indirect _ => []) ++
    remarkIf ((e.access.write || e.access.unset) && v.kind == .this) e.span .assignmentToThis

def selfAssignment (e target value : Expr) : List Remark :=
  match target.form, value.form with
  | .var v, .var w =>
    remarkIf
      (v.isLocal && w.isLocal && e.span.isSome && v.name.direct?.isSome &&
        v.name.direct? == w.name.direct?)
      e.span .selfAssignment
  | _, _ => []

/-- A key whose type is known and cannot be used as a key. -/
def keyType (c : Context) (key : Expr) : List Remark :=
  remarkIf
    (key.mask.isDecidable &&
      (key.mask.isVoid || !(c.registry.concrete key.mask).all ValueType.isKey))
    key.span (.illegalKeyType (c.registry.render key.mask))

/-- The remarks on the items of an array, given the keys of the items before them. -/
def items (c : Context) (seen : List ArrayKey) : List (ArrayItem Expr) → List Remark
  | [] => []
  | item :: rest =>
    match item.key with
    | none => c.items seen rest
    | some key =>
      c.keyType key ++
      match key.constant.bind Constant.arrayKey with
      | none => c.items seen rest
      | some k =>
        remarkIf (k ∈ seen) (key.span.or item.value.span) (.duplicateKey k.toText) ++
          c.items (k :: seen) rest

def arrayLiteral (c : Context) (e : Expr) (list : List (ArrayItem Expr)) : List Remark :=
  remarkIf e.access.isNone e.span .valueNotRead ++ c.items [] list

def division (divisor : Expr) : List Remark :=
  remarkIf (divisor.constant.any Constant.isZero) divisor.span .divisionByZero

/-- The clone of a value that may be something else than an object. -/
def clone (c : Context) (e operand : Expr) : List Remark :=
  remarkIf (operand.mask.isDecidable && !c.registry.onlyObjects operand.mask) e.span
    (.cloneOfNonObject (c.registry.render operand.mask))

/-- A cast in the source of a value that has exactly the target type already. -/
def redundantCast (c : Context) (e : Expr) (target : ValueType) (operand : Expr) : List Remark :=
  remarkIf (e.span.isSome && c.registry.single? operand.mask == some target) e.span .redundantCast

/-- Points at the keyword only. -/
def evalUse (e : Expr) : List Remark := [⟨e.span.map (·.take 4), .evalUsed⟩]

def assertion (c : Context) (e : Expr) (arguments : List (Argument Expr)) : List Remark :=
  match arguments with
  | [] => [⟨e.span, .missingArguments "assert" 1 0⟩]
  | first :: _ =>
    remarkIf (first.value.constant.any Constant.isFalse) e.span .assertionFails ++
    remarkIf (c.registry.hasString first.value.mask) first.value.span .assertionOfString ++
    remarkIf (2 < arguments.length) e.span (.tooManyArguments "assert" 2 arguments.length)

/-- A loop over a value that can be neither an array nor an object. -/
def iteration (c : Context) (collection : Expr) : List Remark :=
  remarkIf
    (collection.mask.isDecidable &&
      !(c.registry.concrete collection.mask).any fun t => t.isArray || t.isObject)
    collection.span (.foreachOverNonIterable (c.registry.render collection.mask))

end FlowLint.Context
