import FlowLint.Tree.Basic

/-!
Statements and control-flow graphs. The blocks of a graph are listed with ascending ordinals, which
follow the layout of the source; a block is looked up by bisection.
-/

namespace FlowLint

structure StaticVariable where
  var : Expr
  initial : Option Expr

inductive StatementForm where
  | expression (value : Expr)
  | return (value : Option Expr)
  | yield (key value : Option Expr)
  | echo (values : List Expr)
  | unset (values : List Expr)
  | staticVariables (declared : List StaticVariable)
  | globals (values : List Expr)
  | declare (clause : Span)

structure Statement where
  form : StatementForm
  span : Option Span

structure CatchHeader where
  types : List (TypeReference Expr)
  caught : Option Expr

inductive BlockKind where
  | plain
  | start
  | exit
  | final
  | handler (header : CatchHeader)

structure SwitchCase where
  /-- The default case has no label. -/
  label : Option Expr
  target : Nat

/-- A `try` construct: its body, its handlers in the order of declaration, the block that is run in
any case, and the block that follows the whole construct. -/
structure TryConstruct where
  body : Nat
  handlers : List Nat
  final : Option Nat
  next : Nat
  deriving DecidableEq, Repr

/-- How control leaves a block. -/
inductive Edge where
  | jump (target : Nat)
  | loopBack (target : Nat)
  | branch (condition : Expr) (whenTrue whenFalse : Nat)
  | select (value : Expr) (cases : List SwitchCase)
  | foreach (collection : Expr) (target : Nat)
  | foreachNext (key : Option Expr) (value : Expr) (body next : Nat)
  | guarded (construct : TryConstruct)

/-- The blocks that control may go to, in structural order. -/
def Edge.targets : Edge → List Nat
  | jump target => [target]
  | loopBack target => [target]
  | branch _ whenTrue whenFalse => [whenTrue, whenFalse]
  | select _ cases => cases.map SwitchCase.target
  | foreach _ target => [target]
  | foreachNext _ _ body next => [body, next]
  | guarded t => t.body :: t.handlers ++ t.final.toList ++ [t.next]

def Edge.construct? : Edge → Option TryConstruct
  | guarded t => some t
  | _ => none

structure Block where
  ordinal : Nat
  kind : BlockKind
  statements : List Statement
  edge : Option Edge

/-- A label of the routine and what the binder saw of it. -/
structure Label where
  name : String
  span : Span
  isDefined : Bool
  isUsed : Bool
  isRedefined : Bool
  deriving DecidableEq, Repr

structure Graph where
  start : Nat
  exit : Nat
  blocks : List Block
  labels : List Label
  /-- Blocks that control cannot reach, as the binder found them. -/
  unreachable : List Nat

def ascending : List Nat → Bool
  | a :: b :: rest => a < b && ascending (b :: rest)
  | _ => true

/-- Bisection for an ordinal among blocks in ascending order. -/
def bisect (id : Nat) : List Block → Option Block
  | [] => none
  | [b] => if b.ordinal = id then some b else none
  | b :: c :: rest =>
    let half := (b :: c :: rest).length / 2
    let upper := (b :: c :: rest).drop half
    if upper.head?.any fun middle => id < middle.ordinal then
      bisect id ((b :: c :: rest).take ((b :: c :: rest).length - half))
    else bisect id upper
termination_by blocks => blocks.length
decreasing_by
  all_goals
    simp only [List.length_take, List.length_drop, List.length_cons]
    omega

namespace Graph

def block? (g : Graph) (id : Nat) : Option Block := bisect id g.blocks

def isSorted (g : Graph) : Bool := ascending (g.blocks.map Block.ordinal)

end Graph

theorem bisect_sound {id : Nat} {blocks : List Block} {b : Block}
    (found : bisect id blocks = some b) : b ∈ blocks ∧ b.ordinal = id := by
  fun_induction bisect id blocks with
  | case1 => simp at found
  | case2 c same =>
    obtain rfl := Option.some.inj found
    exact ⟨List.mem_singleton.2 rfl, same⟩
  | case3 => simp at found
  | case4 _ _ _ _ _ _ ih => exact ⟨List.mem_of_mem_take (ih found).1, (ih found).2⟩
  | case5 _ _ _ _ _ _ ih => exact ⟨List.mem_of_mem_drop (ih found).1, (ih found).2⟩

end FlowLint
