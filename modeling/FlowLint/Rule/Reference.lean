import FlowLint.Rule.Basic

namespace FlowLint.Context

/-- A primitive name where a class is expected. -/
def primitiveMisuse (t : TypeReference Expr) : List Remark :=
  match t.name with
  | .primitive type => [⟨t.span, .primitiveMisused type.name⟩]
  | _ => []

def undefinedType (t : TypeReference Expr) : List Remark :=
  match t.name, t.resolution with
  | .named name, .missing => [⟨t.span, .undefinedType name⟩]
  | _, _ => []

/-- The parent of a class without a base. In traits and in global code the name is bound only when
the program runs. -/
def parentless (c : Context) (t : TypeReference Expr) : List Remark :=
  remarkIf
    (t.isParent && t.span.isSome && !c.symbol.isGlobalCode && !c.owner.any TypeSymbol.isTrait &&
      !c.owner.any fun type => type.base.isSome)
    t.span .parentOfParentless

/-- A class name that differs from its declaration in nothing but case. -/
def nameCase (c : Context) (t : TypeReference Expr) : List Remark :=
  match t.name, c.type? t with
  | .named name, some type =>
    let used := Text.simpleName name
    remarkIf (used != type.name && Text.sameIgnoringCase used type.name) t.span
      (.classNameCase used type.name)
  | _, _ => []

/-- All that is to be said about a reference, wherever it stands. An ambiguous name is reported at
its declarations. -/
def reference (c : Context) (t : TypeReference Expr) : List Remark :=
  if t.resolution = .ambiguous then []
  else undefinedType t ++ c.parentless t ++ c.nameCase t

/-- What keeps a type from being instantiated, and whether it is a closure. -/
inductive Obstacle where
  | kind (name : String)
  | closure
  deriving DecidableEq, Repr

end FlowLint.Context

namespace FlowLint.TypeSymbol

/-- Interfaces come first, then static types; a closure is no abstract class. -/
def obstacle? (t : TypeSymbol) : Option Context.Obstacle :=
  if t.kind = .interface then some (.kind "interface")
  else if t.isStatic then some (.kind "static")
  else if t.kind = .trait then some (.kind "trait")
  else if t.special = some .closure then some .closure
  else if t.isAbstract then some (.kind "abstract class")
  else none

end FlowLint.TypeSymbol

namespace FlowLint.Context

def instantiation (c : Context) (e : Expr) (t : TypeReference Expr) : List Remark :=
  primitiveMisuse t ++
  match c.type? t with
  | none => []
  | some type =>
    match type.obstacle? with
    | none => []
    | some (.kind kind) => [⟨e.span, .notInstantiable kind type.qualifiedName⟩]
    | some .closure => [⟨t.span, .closureInstantiated type.name⟩]

end FlowLint.Context
