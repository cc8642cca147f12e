import FlowLint.Proofs.Prune.Symbol
import FlowLint.Proofs.Walk

namespace FlowLint.Context

/-- The same context without dangling identifiers in its symbols. -/
def pruned (c : Context) : Context := ⟨c.symbol.pruned c.symbols, c.symbols.pruned, c.registry⟩

variable (c : Context)

theorem owner_pruned : c.pruned.owner = c.owner.map (·.pruned c.symbols) :=
  c.symbols.ownerOf_pruned c.symbol

theorem target?_pruned (t : CallTarget) :
    c.pruned.target? t = (c.target? t).map (·.pruned c.symbols) :=
  c.symbols.bind_routine?_pruned t.resolved?

theorem type?_pruned {α : Type} (t : TypeReference α) :
    c.pruned.type? t = (c.type? t).map (·.pruned c.symbols) :=
  c.symbols.bind_type?_pruned t.resolved?

theorem parentless_pruned (t : TypeReference Expr) : c.pruned.parentless t = c.parentless t := by
  have traits : c.pruned.owner.any TypeSymbol.isTrait = c.owner.any TypeSymbol.isTrait := by
    rw [owner_pruned, Option.any_map]
    rfl
  have bases : (c.pruned.owner.any fun type => type.base.isSome) =
      c.owner.any fun type => type.base.isSome := by
    rw [owner_pruned, Option.any_map]
    exact congrArg c.owner.any (funext fun type => type.isSome_base_pruned c.symbols)
  rw [parentless, traits, bases]
  rfl

theorem nameCase_pruned (t : TypeReference Expr) : c.pruned.nameCase t = c.nameCase t := by
  rw [nameCase, nameCase, type?_pruned]
  cases c.type? t <;> cases t.name <;> rfl

theorem reference_pruned (t : TypeReference Expr) : c.pruned.reference t = c.reference t := by
  rw [reference, parentless_pruned, nameCase_pruned, reference]

theorem instantiation_pruned (e : Expr) (t : TypeReference Expr) :
    c.pruned.instantiation e t = c.instantiation e t := by
  rw [instantiation, instantiation, type?_pruned]
  cases c.type? t <;> rfl

theorem deprecation_pruned (e : Expr) (call : Call Expr) :
    c.pruned.deprecation e call = c.deprecation e call := by
  rw [deprecation, deprecation, target?_pruned]
  cases c.target? call.target with
  | none => rfl
  | some target =>
    have shown : c.pruned.symbols.memberName (target.pruned c.symbols) =
        c.symbols.memberName target := c.symbols.memberName_pruned target
    simp only [Option.map_some, shown]
    rfl

theorem abstractCall_pruned (e : Expr) (call : Call Expr) (name : Name Expr) :
    c.pruned.abstractCall e call name = c.abstractCall e call name := by
  rw [abstractCall, abstractCall, target?_pruned]
  cases c.target? call.target with
  | none => rfl
  | some target =>
    have owner : c.pruned.symbols.ownerOf (target.pruned c.symbols) =
        (c.symbols.ownerOf target).map (·.pruned c.symbols) := c.symbols.ownerOf_pruned target
    simp only [Option.map_some, owner, Option.map_map]
    rfl

theorem staticCall_pruned (e : Expr) (call : Call Expr) (t : TypeReference Expr)
    (name : Name Expr) : c.pruned.staticCall e call t name = c.staticCall e call t name := by
  have shown : ((c.pruned.type? t).map (·.name)).getD t.text =
      ((c.type? t).map (·.name)).getD t.text := by
    rw [type?_pruned, Option.map_map]
    rfl
  rw [staticCall, shown, deprecation_pruned, abstractCall_pruned, staticCall]

theorem functionCall_pruned (e : Expr) (call : Call Expr) (name : Name Expr) :
    c.pruned.functionCall e call name = c.functionCall e call name := by
  cases name with
  | direct function => rw [functionCall, deprecation_pruned, functionCall]
  | indirect callee => rfl

theorem receiverName_pruned (receiver : Expr) :
    c.pruned.receiverName receiver = c.receiverName receiver := by
  have named (id : Option TypeId) : (id.bind c.pruned.symbols.type?).map (·.name) =
      (id.bind c.symbols.type?).map (·.name) := by
    rw [pruned, c.symbols.bind_type?_pruned, Option.map_map]
    rfl
  simp only [receiverName, named]
  rfl

theorem methodCall_pruned (e : Expr) (call : Call Expr) (receiver : Expr) (name : Name Expr) :
    c.pruned.methodCall e call receiver name = c.methodCall e call receiver name := by
  rw [methodCall, deprecation_pruned, receiverName_pruned, methodCall]
  rfl

theorem callee_pruned (e : Expr) (call : Call Expr) :
    c.pruned.callee e call = c.callee e call := by
  rw [callee, callee]
  cases call.callee with
  | function name => exact c.functionCall_pruned e call name
  | method receiver name => exact c.methodCall_pruned e call receiver name
  | static t name => exact c.staticCall_pruned e call t name
  | new t => exact c.instantiation_pruned e t

theorem calledName_pruned (callee : Callee Expr) (target : RoutineSymbol) :
    c.pruned.calledName callee (target.pruned c.symbols) = c.calledName callee target := by
  cases callee with
  | function name => rfl
  | method receiver name => exact c.symbols.memberName_pruned target
  | static t name => exact c.symbols.memberName_pruned target
  | new t =>
    have owner : c.pruned.symbols.ownerOf (target.pruned c.symbols) =
        (c.symbols.ownerOf target).map (·.pruned c.symbols) := c.symbols.ownerOf_pruned target
    rw [calledName, owner, Option.map_map]
    rfl

theorem argumentCount_pruned (e : Expr) (call : Call Expr) :
    c.pruned.argumentCount e call = c.argumentCount e call := by
  rw [argumentCount, argumentCount, target?_pruned]
  cases c.target? call.target with
  | none => rfl
  | some target =>
    simp only [Option.map_some, calledName_pruned]
    rfl

theorem items_pruned (seen : List ArrayKey) (list : List (ArrayItem Expr)) :
    c.pruned.items seen list = c.items seen list := by
  induction list generalizing seen with
  | nil => rfl
  | cons item rest ih =>
    rw [items, items]
    simp only [ih]
    rfl

theorem arrayLiteral_pruned (e : Expr) (list : List (ArrayItem Expr)) :
    c.pruned.arrayLiteral e list = c.arrayLiteral e list := by
  rw [arrayLiteral, items_pruned, arrayLiteral]

theorem returnStatement_pruned (around : Surroundings) (s : Statement) (value : Option Expr) :
    c.pruned.returnStatement around s value = c.returnStatement around s value := by
  have shown : c.pruned.owner.map TypeSymbol.qualifiedName =
      c.owner.map TypeSymbol.qualifiedName := by
    rw [owner_pruned, Option.map_map]
    rfl
  rw [returnStatement, shown]
  rfl

theorem statement_pruned (around : Surroundings) (s : Statement) :
    c.pruned.statement around s = c.statement around s := by
  obtain ⟨form, span⟩ := s
  cases form with
  | «return» value => exact c.returnStatement_pruned around _ value
  | _ => rfl

theorem enterExpr_pruned (e : Expr) : c.pruned.enterExpr e = c.enterExpr e := by
  rw [enterExpr, enterExpr]
  cases e.form with
  | array list => exact c.arrayLiteral_pruned e list
  | call call => exact c.callee_pruned e call
  | _ => rfl

theorem leaveExpr_pruned (e : Expr) : c.pruned.leaveExpr e = c.leaveExpr e := by
  unfold leaveExpr
  cases e.form with
  | binary op left right => cases op <;> rfl
  | unary op operand => cases op <;> rfl
  | conversion target operand implicit => cases implicit <;> rfl
  | call call => exact c.argumentCount_pruned e call
  | _ => rfl

theorem step_pruned (around : Surroundings) (s : Step) :
    c.pruned.step around s = c.step around s := by
  cases s with
  | enter n =>
    cases n with
    | statement s => exact c.statement_pruned around s
    | expr e => exact c.enterExpr_pruned e
    | type t => exact c.reference_pruned t
    | _ => rfl
  | leave n =>
    cases n with
    | expr e => exact c.leaveExpr_pruned e
    | edge e => cases e <;> rfl
    | _ => rfl

theorem remarks_pruned (around : Surroundings) (n : Node) :
    c.pruned.remarks around n = c.remarks around n :=
  List.flatMap_congr fun s _ => c.step_pruned around s

theorem parentConstructor_pruned (called : Bool) :
    c.pruned.parentConstructor called = c.parentConstructor called := by
  have inherits : c.pruned.symbol.containingType.any c.pruned.symbols.hasBaseConstructor =
      c.symbol.containingType.any c.symbols.hasBaseConstructor :=
    c.symbols.any_hasBaseConstructor_pruned c.symbol.containingType
  have shown : c.pruned.owner.map (·.name) = c.owner.map (·.name) := by
    rw [owner_pruned, Option.map_map]
    rfl
  rw [parentConstructor, inherits, shown]
  rfl

/-- What a routine is told does not depend on identifiers that stand for nothing. -/
theorem routine_pruned (g : Graph) : c.pruned.routine g = c.routine g := by
  have found : (c.pruned.walk g).found = (c.walk g).found := by
    rw [walk_found, walk_found]
    exact List.flatMap_congr fun b _ => c.remarks_pruned _ (.block b)
  have calls : (c.pruned.walk g).callsParent = (c.walk g).callsParent := by
    rw [walk_callsParent, walk_callsParent]
  rw [routine, found, calls, parentConstructor_pruned, routine]

end FlowLint.Context
