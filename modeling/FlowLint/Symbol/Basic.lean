import FlowLint.Span
import FlowLint.Text.Name
import FlowLint.Value.Basic

/-!
The declared types and routines of a program, and the table that lists them. An identifier is a
position in the table; one that points past its end stands for nothing.
-/

namespace FlowLint

/-- A position in the list of declared routines. -/
abbrev RoutineId := Nat

inductive TypeKind where
  | regular
  | interface
  | trait
  deriving DecidableEq, Repr

def TypeKind.name : TypeKind → String
  | regular => "class"
  | interface => "interface"
  | trait => "trait"

inductive SpecialType where
  | closure
  deriving DecidableEq, Repr

structure BaseType where
  name : String
  symbol : Option TypeId
  deriving DecidableEq, Repr

structure TypeSymbol where
  name : String
  enclosing : Option String
  kind : TypeKind
  isAbstract : Bool
  isStatic : Bool
  special : Option SpecialType
  base : Option BaseType
  initializer : Option RoutineId
  deriving DecidableEq, Repr

namespace TypeSymbol

def qualifiedName (t : TypeSymbol) : String :=
  match t.enclosing with
  | some enclosing => if enclosing.isEmpty then t.name else enclosing ++ "\\" ++ t.name
  | none => t.name

def isTrait (t : TypeSymbol) : Bool := t.kind == .trait

/-- Interfaces and traits cannot be instantiated either. -/
def isAbstractLike (t : TypeSymbol) : Bool := t.isAbstract || t.kind != .regular

end TypeSymbol

inductive RoutineKind where
  | function
  | method
  | lambda
  | globalCode
  deriving DecidableEq, Repr

def RoutineKind.name : RoutineKind → String
  | function => "function"
  | method => "method"
  | lambda => "closure"
  | globalCode => "script"

inductive TypeHint where
  | primitive (type : Primitive)
  | named (name : String)
  | nullable (hint : TypeHint)
  deriving DecidableEq, Repr

structure Parameter where
  name : String
  ordinal : Nat
  isOptional : Bool
  isVariadic : Bool
  isImplicit : Bool
  hasDefault : Bool
  hint : Option TypeHint
  deriving DecidableEq, Repr

def Parameter.isOptionalLike (p : Parameter) : Bool := p.isOptional || p.hasDefault

structure RoutineSymbol where
  name : String
  kind : RoutineKind
  containingType : Option TypeId
  parameters : List Parameter
  isAbstract : Bool
  isStatic : Bool
  /-- What to say about the deprecation, if the routine is deprecated. -/
  deprecation : Option String
  returnHint : Option TypeHint
  heading : Span
  deriving DecidableEq, Repr

/-- The name of constructors; its case does not matter. -/
def constructorName : String := "__construct"

namespace RoutineSymbol

def isConstructor (r : RoutineSymbol) : Bool :=
  r.kind == .method && Text.sameIgnoringCase r.name constructorName

def isToString (r : RoutineSymbol) : Bool :=
  r.kind == .method && Text.sameIgnoringCase r.name "__tostring"

def isGlobalCode (r : RoutineSymbol) : Bool := r.kind == .globalCode

def returnsVoid (r : RoutineSymbol) : Bool := r.returnHint == some (.primitive .void)

end RoutineSymbol

structure SymbolTable where
  types : List TypeSymbol
  routines : List RoutineSymbol
  deriving DecidableEq, Repr

namespace SymbolTable

def empty : SymbolTable := ⟨[], []⟩

def type? (s : SymbolTable) (id : TypeId) : Option TypeSymbol := s.types[id]?

def routine? (s : SymbolTable) (id : RoutineId) : Option RoutineSymbol := s.routines[id]?

/-- The table with one more type, whose identifier is the former number of types. -/
def addType (s : SymbolTable) (t : TypeSymbol) : SymbolTable :=
  { s with types := s.types ++ [t] }

def addRoutine (s : SymbolTable) (r : RoutineSymbol) : SymbolTable :=
  { s with routines := s.routines ++ [r] }

def setConstructor (s : SymbolTable) (id : TypeId) (r : RoutineId) : SymbolTable :=
  { s with types := s.types.modify id fun t => { t with initializer := some r } }

def ownerOf (s : SymbolTable) (r : RoutineSymbol) : Option TypeSymbol :=
  r.containingType.bind s.type?

/-- `Type::name` for a member, the plain name for any other routine. -/
def memberName (s : SymbolTable) (r : RoutineSymbol) : String :=
  match s.ownerOf r with
  | some t => t.qualifiedName ++ "::" ++ r.name
  | none => r.name

def hasBaseConstructor (s : SymbolTable) (id : TypeId) : Bool :=
  match (s.type? id).bind (·.base) |>.bind (·.symbol) |>.bind s.type? with
  | none => false
  | some base =>
    !base.isAbstractLike && (base.initializer.bind s.routine?).any fun r => !r.isAbstract

end SymbolTable

end FlowLint
