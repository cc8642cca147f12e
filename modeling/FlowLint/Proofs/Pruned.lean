import FlowLint.Proofs.Prune.Rule
import FlowLint.Proofs.Retouch.Rule

/-!
Dangling identifiers. One that points past the end of its list does the same as none at all: what is
said about a program stays the same, word for word, if each of them is dropped.
-/

namespace FlowLint

/-- A call of a routine that is not declared is one whose target is not known yet. -/
def CallTarget.pruned (s : SymbolTable) : CallTarget → CallTarget
  | resolved id => if id < s.routines.length then resolved id else unresolved
  | target => target

/-- A reference to a type that is not declared is one that is resolved when the program runs. -/
def TypeResolution.pruned (s : SymbolTable) : TypeResolution → TypeResolution
  | resolved id => if id < s.types.length then resolved id else deferred
  | resolution => resolution

namespace Retouch

/-- Takes away every target and every type that is not declared, and nothing else. -/
def prune (s : SymbolTable) : Retouch := ⟨false, CallTarget.pruned s, TypeResolution.pruned s⟩

variable (s : SymbolTable)

theorem resolved?_prune_target (target : CallTarget) :
    (target.pruned s).resolved? = s.knownRoutine target.resolved? := by
  cases target with
  | resolved id =>
    rw [CallTarget.pruned, CallTarget.resolved?, s.knownRoutine_some]
    split <;> rfl
  | _ => rfl

theorem resolved?_prune_type {α : Type} (r : TypeReference α) :
    (r.touch (prune s)).resolved? = s.knownType r.resolved? := by
  obtain ⟨name, resolution, span⟩ := r
  cases resolution with
  | resolved id =>
    have touched : (TypeReference.touch (prune s) ⟨name, .resolved id, span⟩).resolution =
        if id < s.types.length then .resolved id else .deferred := rfl
    rw [TypeReference.resolved?, touched, TypeReference.resolved?, s.knownType_some]
    by_cases inside : id < s.types.length
    · rw [if_pos inside, if_pos inside]
    · rw [if_neg inside, if_neg inside]
  | _ => rfl

theorem prune_keeps (c : Context) : (prune c.symbols).Keeps c where
  target? target := by
    have found := c.symbols.bind_routine?_knownRoutine target.resolved?
    rw [← resolved?_prune_target] at found
    exact found
  missingTarget target := by
    cases target with
    | resolved id =>
      simp only [prune, CallTarget.pruned, reduceCtorEq, iff_false]
      split <;> exact CallTarget.noConfusion
    | _ => exact Iff.rfl
  type? r := by
    rw [Context.type?, resolved?_prune_type, c.symbols.bind_type?_knownType, Context.type?]
  missingType resolution := by
    cases resolution with
    | resolved id =>
      simp only [prune, TypeResolution.pruned, reduceCtorEq, iff_false]
      split <;> exact TypeResolution.noConfusion
    | _ => exact Iff.rfl
  ambiguousType resolution := by
    cases resolution with
    | resolved id =>
      simp only [prune, TypeResolution.pruned, reduceCtorEq, iff_false]
      split <;> exact TypeResolution.noConfusion
    | _ => exact Iff.rfl

theorem remark_of_kept {t : Retouch} (kept : t.erases = false) (r : Remark) :
    t.remark r = some r := by
  have place : t.span r.span = r.span := by
    rw [Retouch.span, kept]
    rfl
  rw [remark, place, kept]
  cases r.finding.anchor <;> rfl

end Retouch

theorem Context.routine_prune (c : Context) {g : Graph} (sound : g.Sound) :
    c.routine (g.retouch (.prune c.symbols)) = c.routine g := by
  have kept : ∀ r ∈ c.routine g, (Retouch.prune c.symbols).remark r = some r :=
    fun r _ => Retouch.remark_of_kept rfl r
  rw [routine_retouch (Retouch.prune_keeps c) sound, List.filterMap_congr kept,
    List.filterMap_some]

/-- The node is bound to nothing that is not declared. -/
def Node.Closed (s : SymbolTable) : Node → Prop
  | expr e => ∀ call id, e.form = .call call → call.target = .resolved id → id < s.routines.length
  | type r => ∀ id, r.resolution = .resolved id → id < s.types.length
  | _ => True

theorem CallTarget.lt_of_pruned {s : SymbolTable} {target : CallTarget} {id : RoutineId}
    (bound : target.pruned s = .resolved id) : id < s.routines.length := by
  have resolved : (target.pruned s).resolved? = some id := by
    rw [bound]
    rfl
  rw [Retouch.resolved?_prune_target] at resolved
  exact of_decide_eq_true (Option.mem_filter_iff.1 resolved).2

theorem TypeReference.lt_of_prune {s : SymbolTable} {r : TypeReference Expr} {id : TypeId}
    (bound : (r.retouch (.prune s)).resolution = .resolved id) : id < s.types.length := by
  have resolved : (r.retouch (.prune s)).resolved? = some id := by
    rw [TypeReference.resolved?, bound]
  rw [TypeReference.retouch, Retouch.resolved?_prune_type] at resolved
  exact of_decide_eq_true (Option.mem_filter_iff.1 resolved).2

theorem Node.closed_prune (s : SymbolTable) (n : Node) :
    (n.retouch (.prune s)).Closed s.pruned := by
  cases n with
  | expr e =>
    intro call id form bound
    rw [s.length_routines_pruned]
    rw [Expr.form_retouch] at form
    cases shape : e.form with
    | call before =>
      rw [shape] at form
      obtain rfl := Form.call.inj form
      exact CallTarget.lt_of_pruned bound
    | _ =>
      rw [shape] at form
      cases form
  | type r =>
    intro id bound
    rw [s.length_types_pruned]
    exact TypeReference.lt_of_prune bound
  | _ => trivial

def Routine.pruned (s : SymbolTable) (r : Routine) : Routine :=
  { r with graph := r.graph.map (·.retouch (.prune s)) }

theorem Routine.diagnostics_pruned {s : SymbolTable} {r : Routine}
    (sound : ∀ g, r.graph = some g → g.Sound) :
    (r.pruned s).diagnostics s.pruned = r.diagnostics s := by
  obtain ⟨id, graph, registry⟩ := r
  cases graph with
  | none => rfl
  | some g =>
    simp only [diagnostics, pruned, Option.map_some, s.routine?_pruned]
    cases s.routine? id with
    | none => rfl
    | some symbol =>
      let c : Context := ⟨symbol, s, registry⟩
      have same : c.pruned.routine (g.retouch (.prune s)) = c.routine g := by
        rw [c.routine_pruned, c.routine_prune (sound g rfl)]
      exact congrArg (List.map (·.diagnostic id symbol.heading)) same

namespace Program

/-- No base, constructor or owner dangles, and no target of a call or type of a reference, whether
control can reach it or not. -/
structure Closed (p : Program) : Prop where
  symbols : p.symbols.Closed
  nodes : ∀ r ∈ p.routines, ∀ g, r.graph = some g →
    ∀ b ∈ g.blocks, ∀ n ∈ (Node.block b).entered, n.Closed p.symbols

/-- The program with each dangling identifier dropped. -/
def pruned (p : Program) : Program := ⟨p.symbols.pruned, p.routines.map (·.pruned p.symbols)⟩

variable {p : Program}

theorem closed_pruned (p : Program) : p.pruned.Closed where
  symbols := p.symbols.closed_pruned
  nodes := by
    intro r listed g body b block n inside
    obtain ⟨r, -, rfl⟩ := List.mem_map.1 listed
    obtain ⟨g, -, rfl⟩ := Option.map_eq_some_iff.1 body
    obtain ⟨b, -, rfl⟩ := List.mem_map.1 block
    rw [Block.entered_retouch] at inside
    obtain ⟨m, -, rfl⟩ := List.mem_map.1 inside
    exact m.closed_prune p.symbols

theorem Valid.pruned (valid : p.Valid) : p.pruned.Valid := by
  have retouched := valid.retouch (.prune p.symbols)
  refine ⟨fun r listed => ?_, retouched.distinct, retouched.sound⟩
  obtain ⟨r, among, rfl⟩ := List.mem_map.1 listed
  obtain ⟨symbol, declared⟩ := valid.declared r among
  have found : p.pruned.symbols.routine? r.symbol = some (symbol.pruned p.symbols) := by
    rw [Program.pruned, p.symbols.routine?_pruned, declared]
    rfl
  exact ⟨_, found⟩

/-- A program is told the same, word for word, if each identifier that stands for nothing is
dropped: the target of a call and the type of a reference anywhere in a body, and the base, the
constructor and the owner in the table of symbols. -/
theorem pruned_exact {s : Sink} (valid : p.defect? = none) (yields : p.Yields s) :
    p.pruned.Closed ∧ p.pruned.defect? = none ∧
      ∀ t, p.pruned.Yields t → t.all = s.all ∧ ∀ o, t.report o = s.report o := by
  rw [defect?_eq_none_iff] at valid ⊢
  refine ⟨p.closed_pruned, valid.pruned, fun t others => ?_⟩
  have batches : p.pruned.routines.map (·.batch p.pruned.symbols) =
      p.routines.map (·.batch p.symbols) := by
    rw [Program.pruned, List.map_map]
    apply List.map_congr_left
    intro r listed
    exact congrArg (Prod.mk r.symbol) (Routine.diagnostics_pruned (valid.sound r listed))
  exact yields.report_eq_of_batches valid (.of_eq batches) others

def evalOfUndeclared : Expr :=
  let made : Expr :=
    ⟨.call ⟨.static ⟨.named "Maker", .resolved 8, some ⟨11, 16⟩⟩ (.direct "make"), .resolved 5, [],
      none⟩, some ⟨11, 24⟩, .any, ⟨true, false, false, false⟩, none, none⟩
  ⟨.eval made, some ⟨6, 25⟩, .any, ⟨true, false, false, false⟩, none, none⟩

def undeclaredGraph : Graph :=
  { start := 0
    exit := 1
    blocks :=
      [⟨0, .start, [⟨.expression evalOfUndeclared, none⟩], some (.jump 1)⟩, ⟨1, .exit, [], none⟩]
    labels := []
    unreachable := [] }

theorem undeclaredGraph_sound : undeclaredGraph.Sound := ⟨by decide, by decide⟩

/-- The base and the constructor of its class are not declared either, nor is the owner of its
method. -/
def undeclared : Program :=
  { symbols :=
      ⟨[⟨"Made", none, .regular, false, false, none, some ⟨"Base", some 7⟩, some 9⟩],
       [⟨"run", .method, some 4, [], false, false, none, none, ⟨0, 3⟩⟩]⟩
    routines := [⟨0, some undeclaredGraph, .empty⟩] }

theorem undeclared_valid : undeclared.Valid where
  declared := by simp [undeclared, SymbolTable.routine?]
  distinct := List.nodup_singleton _
  sound := by simp [undeclared, undeclaredGraph_sound]

theorem undeclared_open : ¬ undeclared.Closed := by
  intro closed
  have owned : 4 < 1 := closed.symbols.owner _ List.mem_cons_self 4 rfl
  exact absurd owned (by decide)

theorem undeclared_found : ⟨0, ⟨6, 10⟩, .evalUsed⟩ ∈ undeclared.analyze.all := by
  let r : Routine := ⟨0, some undeclaredGraph, .empty⟩
  let symbol : RoutineSymbol := ⟨"run", .method, some 4, [], false, false, none, none, ⟨0, 3⟩⟩
  have declared : undeclared.symbols.routine? r.symbol = some symbol := rfl
  have inside : .expr evalOfUndeclared ∈ undeclaredGraph.entered :=
    Graph.expr_mem_entered undeclaredGraph_sound.sorted List.mem_cons_self rfl List.mem_cons_self
      List.mem_cons_self
  have said (around : Surroundings) :
      ⟨some ⟨6, 10⟩, .evalUsed⟩ ∈
        (r.context undeclared.symbols symbol).enter around (.expr evalOfUndeclared) :=
    List.mem_singleton.2 rfl
  have made := r.mem_diagnostics_of_node rfl declared inside (.inl said)
  exact ((yields_analyze _).mem_all_iff undeclared_valid).2 ⟨r, List.mem_cons_self, made⟩

theorem undeclared_pruned :
    undeclared.defect? = none ∧ ¬ undeclared.Closed ∧ undeclared.pruned.Closed ∧
      ⟨0, ⟨6, 10⟩, .evalUsed⟩ ∈ undeclared.pruned.analyze.all := by
  have valid := defect?_eq_none_iff.2 undeclared_valid
  obtain ⟨closed, -, same⟩ := pruned_exact valid (yields_analyze _)
  refine ⟨valid, undeclared_open, closed, ?_⟩
  rw [(same _ (yields_analyze _)).1]
  exact undeclared_found

end Program

end FlowLint
