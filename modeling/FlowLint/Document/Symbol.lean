import FlowLint.Document.Value
import FlowLint.Symbol.Basic

namespace FlowLint

open Json (Decoder)

def TypeKind.all : List TypeKind := [regular, interface, trait]

def TypeKind.decode : Decoder TypeKind := .plain all name

def SpecialType.tag : SpecialType → String
  | closure => "closure"

def SpecialType.decode : Decoder SpecialType := .plain [closure] tag

def BaseType.decode : Decoder BaseType := .record ["name", "symbol"] fun level fields => do
  let name ← fields.required "name" (Decoder.string level)
  let symbol ← fields.optional "symbol" .identifier level
  return ⟨name, symbol⟩

def BaseType.encode (b : BaseType) : Json :=
  .record [("name", .text b.name), ("symbol", .optional .nat b.symbol)]

namespace TypeSymbol

def keys : List String :=
  ["name", "namespace", "kind", "is_abstract", "is_static", "special", "base", "constructor"]

def decode : Decoder TypeSymbol := .record keys fun level fields => do
  let name ← fields.required "name" (Decoder.string level)
  let enclosing ← fields.optional "namespace" .string level
  let kind ← fields.withDefault "kind" .regular (TypeKind.decode level)
  let isAbstract ← fields.withDefault "is_abstract" false (Decoder.bool level)
  let isStatic ← fields.withDefault "is_static" false (Decoder.bool level)
  let special ← fields.optional "special" SpecialType.decode level
  let base ← fields.optional "base" BaseType.decode level
  let initializer ← fields.optional "constructor" .identifier level
  return { name, enclosing, kind, isAbstract, isStatic, special, base, initializer }

def encode (t : TypeSymbol) : Json :=
  .record
    [("name", .text t.name),
     ("namespace", .optional .text t.enclosing),
     ("kind", .text t.kind.name),
     ("is_abstract", .bool t.isAbstract),
     ("is_static", .bool t.isStatic),
     ("special", .optional (fun special => .text special.tag) t.special),
     ("base", .optional BaseType.encode t.base),
     ("constructor", .optional .nat t.initializer)]

end TypeSymbol

namespace TypeHint

def decodeWithin : Nat → Decoder TypeHint
  | 0 => fun _ _ => none
  | depth + 1 =>
    .carrying
      [("primitive", .map primitive Primitive.decode),
       ("class", .map named .string),
       ("nullable", .map nullable (decodeWithin depth))]

/-- Every hint opens an object, so that the level bounds the depth. -/
def decode : Decoder TypeHint := fun level => decodeWithin level level

def encode : TypeHint → Json
  | primitive type => .case "primitive" type.encode
  | named name => .case "class" (.text name)
  | nullable hint => .case "nullable" hint.encode

end TypeHint

namespace Parameter

def keys : List String :=
  ["name", "ordinal", "is_optional", "is_variadic", "is_implicit", "has_default", "type_hint"]

def decode : Decoder Parameter := .record keys fun level fields => do
  let name ← fields.required "name" (Decoder.string level)
  let ordinal ← fields.required "ordinal" (Decoder.position level)
  let isOptional ← fields.withDefault "is_optional" false (Decoder.bool level)
  let isVariadic ← fields.withDefault "is_variadic" false (Decoder.bool level)
  let isImplicit ← fields.withDefault "is_implicit" false (Decoder.bool level)
  let hasDefault ← fields.withDefault "has_default" false (Decoder.bool level)
  let hint ← fields.optional "type_hint" TypeHint.decode level
  return { name, ordinal, isOptional, isVariadic, isImplicit, hasDefault, hint }

def encode (p : Parameter) : Json :=
  .record
    [("name", .text p.name),
     ("ordinal", .nat p.ordinal),
     ("is_optional", .bool p.isOptional),
     ("is_variadic", .bool p.isVariadic),
     ("is_implicit", .bool p.isImplicit),
     ("has_default", .bool p.hasDefault),
     ("type_hint", .optional TypeHint.encode p.hint)]

end Parameter

namespace RoutineKind

def tag : RoutineKind → String
  | function => "function"
  | method => "method"
  | lambda => "lambda"
  | globalCode => "global_code"

def all : List RoutineKind := [function, method, lambda, globalCode]

def decode : Decoder RoutineKind := .plain all tag

end RoutineKind

namespace RoutineSymbol

/-- A deprecation is a record of its own, in which the message may be left out. -/
def decodeDeprecation : Decoder String := .record ["message"] fun level fields =>
  fields.withDefault "message" "" (Decoder.string level)

def encodeDeprecation (message : String) : Json := .record [("message", .text message)]

def keys : List String :=
  ["name", "kind", "containing_type", "parameters", "is_abstract", "is_static", "deprecation",
   "return_type", "heading_span"]

def decode : Decoder RoutineSymbol := .record keys fun level fields => do
  let name ← fields.required "name" (Decoder.string level)
  let kind ← fields.withDefault "kind" .function (RoutineKind.decode level)
  let containingType ← fields.optional "containing_type" .identifier level
  let parameters ← fields.withDefault "parameters" [] (Decoder.list Parameter.decode level)
  let isAbstract ← fields.withDefault "is_abstract" false (Decoder.bool level)
  let isStatic ← fields.withDefault "is_static" false (Decoder.bool level)
  let deprecation ← fields.optional "deprecation" decodeDeprecation level
  let returnHint ← fields.optional "return_type" TypeHint.decode level
  let heading ← fields.withDefault "heading_span" ⟨0, 0⟩ (Span.decode level)
  return { name, kind, containingType, parameters, isAbstract, isStatic, deprecation, returnHint,
           heading }

def encode (r : RoutineSymbol) : Json :=
  .record
    [("name", .text r.name),
     ("kind", .text r.kind.tag),
     ("containing_type", .optional .nat r.containingType),
     ("parameters", .list Parameter.encode r.parameters),
     ("is_abstract", .bool r.isAbstract),
     ("is_static", .bool r.isStatic),
     ("deprecation", .optional encodeDeprecation r.deprecation),
     ("return_type", .optional TypeHint.encode r.returnHint),
     ("heading_span", r.heading.encode)]

end RoutineSymbol

namespace SymbolTable

def decode : Decoder SymbolTable := .record ["types", "routines"] fun level fields => do
  let types ← fields.withDefault "types" [] (Decoder.list TypeSymbol.decode level)
  let routines ← fields.withDefault "routines" [] (Decoder.list RoutineSymbol.decode level)
  return ⟨types, routines⟩

def encode (s : SymbolTable) : Json :=
  .record
    [("types", .list TypeSymbol.encode s.types),
     ("routines", .list RoutineSymbol.encode s.routines)]

end SymbolTable

end FlowLint
