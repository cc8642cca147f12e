import FlowLint.Constant
import FlowLint.Json.Decoder
import FlowLint.Span
import FlowLint.Value.Registry

namespace FlowLint

open Json (Decoder)

/-- Identifiers and block ordinals have 32 bits. -/
def Json.Decoder.identifier : Decoder Nat := .natural UInt32.size

/-- Positions and counts have 64 bits. -/
def Json.Decoder.position : Decoder Nat := .natural UInt64.size

def Span.decode : Decoder Span := .record ["start", "end"] fun level fields => do
  let start ← fields.required "start" (Decoder.position level)
  let stop ← fields.required "end" (Decoder.position level)
  return ⟨start, stop⟩

def Span.encode (s : Span) : Json := .record [("start", .nat s.start), ("end", .nat s.stop)]

/-- Any number is a double unless it is too great. -/
def Double.decode : Decoder Double
  | _, .scalar (.number n) => Double.ofNumeral? n
  | _, _ => none

/-- What is not finite has no numeral. -/
def Double.encode (d : Double) : Json := .optional (fun n => .scalar (.number n)) d.numeral?

namespace Constant

def tag : Constant → String
  | null => "null"
  | bool _ => "bool"
  | int _ => "long"
  | double _ => "double"
  | text _ => "string"

def decode : Decoder Constant :=
  .choice
    [("bool", .map bool .bool),
     ("long", .map int (.integer minInt (maxInt + 1))),
     ("double", .map double Double.decode),
     ("string", .map text .string)]
    [null] tag

def encode (c : Constant) : Json :=
  match c with
  | null => .text c.tag
  | bool value => .case c.tag (.bool value)
  | int value => .case c.tag (.int value)
  | double value => .case c.tag value.encode
  | text value => .case c.tag (.text value)

end Constant

namespace ValueType

def tag : ValueType → String
  | null => "null"
  | boolean => "boolean"
  | integer => "long"
  | double => "double"
  | string => "string"
  | writableString => "writable_string"
  | array => "array"
  | resource => "resource"
  | callable => "callable"
  | iterable => "iterable"
  | object => "object"
  | instanceOf _ _ => "class"

def builtin : List ValueType :=
  [null, boolean, integer, double, string, writableString, array, resource, callable, iterable,
   object]

def decodeClass : Decoder ValueType := .record ["name", "symbol"] fun level fields => do
  let name ← fields.required "name" (Decoder.string level)
  let symbol ← fields.optional "symbol" .identifier level
  return instanceOf name symbol

def decode : Decoder ValueType := .choice [("class", decodeClass)] builtin tag

def encode (t : ValueType) : Json :=
  match t with
  | instanceOf name symbol =>
    .case t.tag (.record [("name", .text name), ("symbol", .optional .nat symbol)])
  | _ => .text t.tag

end ValueType

namespace HostType

def tag : HostType → String
  | void => "void"
  | int32 => "int32"
  | int64 => "int64"
  | double => "double"
  | boolean => "boolean"
  | string => "string"
  | languageString => "php_string"
  | languageArray => "php_array"
  | languageNumber => "php_number"
  | languageResource => "php_resource"
  | languageValue => "php_value"
  | arrayInterface => "array_interface"
  | callableInterface => "callable_interface"
  | object _ => "object"

def builtin : List HostType :=
  [void, int32, int64, double, boolean, string, languageString, languageArray, languageNumber,
   languageResource, languageValue, arrayInterface, callableInterface]

def decode : Decoder HostType := .choice [("object", .map object .identifier)] builtin tag

def encode (t : HostType) : Json :=
  match t with
  | object type => .case t.tag (.nat type)
  | _ => .text t.tag

end HostType

namespace Primitive

def all : List Primitive :=
  [bool, int, float, string, array, callable, iterable, object, void, mixed, null, false]

def decode : Decoder Primitive := .plain all name

def encode (p : Primitive) : Json := .text p.name

end Primitive

/-- A mask keeps all bits as they are given. -/
def Mask.decode : Decoder Mask := .map (fun bits => ⟨BitVec.ofNat 64 bits⟩) (.natural UInt64.size)

def Mask.encode (m : Mask) : Json := .nat m.bits.toNat

/-- A repeated type has the slot of its first occurrence. -/
def Registry.decode : Decoder Registry := .map .ofList (.list ValueType.decode)

def Registry.encode (r : Registry) : Json := .list ValueType.encode r.types

end FlowLint
