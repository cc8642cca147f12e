import FlowLint.Proofs.Graph.Reached
import FlowLint.Proofs.Pool
import FlowLint.Proofs.Remark

namespace FlowLint

namespace Statement

def isYield (s : Statement) : Bool :=
  match s.form with
  | .yield _ _ => true
  | _ => false

def isReturn (s : Statement) : Bool :=
  match s.form with
  | .return _ => true
  | _ => false

end Statement

namespace Finding

def yieldUnsupported : Finding :=
  .notImplemented "yielding from an exception handling construct (try, catch, finally)"

def returnUnsupported : Finding := .notImplemented "return from 'finally' block"

end Finding

namespace Context

variable (c : Context) (around : Surroundings)

theorem filter_statement_yield (s : Statement) :
    ((c.statement around s).filter fun r => r.finding = .yieldUnsupported) =
      remarkIf (s.isYield && around.inAny) s.span .yieldUnsupported := by
  obtain ⟨form, span⟩ := s
  cases form <;>
    simp [statement, returnStatement, yieldStatement, declareStatement, filter_remarkIf,
      Statement.isYield, Finding.yieldUnsupported]

theorem filter_statement_return (s : Statement) :
    ((c.statement around s).filter fun r => r.finding = .returnUnsupported) =
      remarkIf ((s.isReturn && s.span.isSome) && around.inFinal) s.span .returnUnsupported := by
  obtain ⟨form, span⟩ := s
  cases form <;>
    simp [statement, returnStatement, yieldStatement, declareStatement, filter_remarkIf,
      Statement.isReturn, Finding.returnUnsupported]

theorem statement_notImplemented {s : Statement} {r : Remark} (member : r ∈ c.statement around s)
    (missing : r.finding.code = "E0108") :
    r.finding = .yieldUnsupported ∨ r.finding = .returnUnsupported := by
  unfold statement at member
  split at member
  · simp only [returnStatement, List.mem_append, mem_remarkIf] at member
    rcases member with (⟨-, rfl⟩ | ⟨-, rfl⟩) | ⟨-, rfl⟩
    · simp [Finding.code] at missing
    · simp [Finding.code] at missing
    · exact .inr rfl
  · rw [(mem_remarkIf.1 member).2]
    exact .inl rfl
  · rw [List.mem_singleton.1 member] at missing
    simp [Finding.code] at missing
  · cases member

end Context

def otherCodes : List String := expressionCodes ++ judgementCodes ++ routineCodes

namespace Routine

variable {symbols : SymbolTable} {r : Routine} {g : Graph} {symbol : RoutineSymbol}

theorem judge_otherCodes (c : Context) (value : Expr) (j : Judgement) :
    Within otherCodes (c.judge value j) :=
  Within.judge (List.mem_append_left _ (List.mem_append_right _ j.code_mem))

theorem filter_yield (sound : g.Sound) (body : r.graph = some g)
    (declared : symbols.routine? r.symbol = some symbol) :
    ((r.diagnostics symbols).filter fun d => d.finding = .yieldUnsupported) =
      (g.reached fun id => ∃ kind, g.Guards kind id).flatMap fun b =>
        (b.statements.filter Statement.isYield).map fun s =>
          ⟨r.symbol, s.span.getD symbol.heading, .yieldUnsupported⟩ := by
  refine filter_diagnostics otherCodes (fun f => f = .yieldUnsupported) g.plan.regions.covers sound
    body declared (by decide) (by decide) (fun _ _ value j _ => judge_otherCodes _ value j) ?_
    (fun _ => Graph.covers_iff_guards sound.sorted)
    fun _ _ s _ => Context.filter_statement_yield _ _ s
  intro f same
  rw [of_decide_eq_true same]
  decide

theorem filter_return (sound : g.Sound) (body : r.graph = some g)
    (declared : symbols.routine? r.symbol = some symbol) :
    ((r.diagnostics symbols).filter fun d => d.finding = .returnUnsupported) =
      (g.reached (g.Guards .final)).flatMap fun b =>
        (b.statements.filter fun s => s.isReturn && s.span.isSome).map fun s =>
          ⟨r.symbol, s.span.getD symbol.heading, .returnUnsupported⟩ := by
  refine filter_diagnostics otherCodes (fun f => f = .returnUnsupported)
    (g.plan.regions.contains .final) sound body declared (by decide) (by decide)
    (fun _ _ value j _ => judge_otherCodes _ value j) ?_
    (fun _ => Graph.contains_iff_guards sound.sorted)
    fun _ _ s _ => Context.filter_statement_return _ _ s
  intro f same
  rw [of_decide_eq_true same]
  decide

theorem notImplemented_cases {d : Diagnostic} (body : r.graph = some g)
    (declared : symbols.routine? r.symbol = some symbol) (member : d ∈ r.diagnostics symbols)
    (missing : d.code = "E0108") :
    d.finding = .yieldUnsupported ∨ d.finding = .returnUnsupported := by
  rw [diagnostics_eq body declared] at member
  obtain ⟨m, among, rfl⟩ := List.mem_map.1 member
  have chosen :
      m ∈ ((r.context symbols symbol).routine g).filter fun m => m.finding.code = "E0108" :=
    List.mem_filter.2 ⟨among, decide_eq_true missing⟩
  rw [Context.filter_routine _ otherCodes (by decide) (by decide)
    (fun _ _ value j _ => judge_otherCodes _ value j)
    (fun m same => by rw [of_decide_eq_true same]; decide)] at chosen
  obtain ⟨b, -, inside⟩ := List.mem_flatMap.1 chosen
  obtain ⟨s, -, here⟩ := List.mem_flatMap.1 inside
  exact Context.statement_notImplemented _ _ (List.mem_filter.1 here).1 missing

end Routine

namespace Program

/-- The diagnostics on features that are missing, for each routine with a body: one for each yield
of a reachable block in some part of a reachable construct, in order, and one for each return with
a place in the source of a reachable block in the final part of such a construct, in order. -/
theorem notImplemented_exact {p : Program} (valid : p.defect? = none) {s : Sink}
    (yields : p.Yields s) {r : Routine} (listed : r ∈ p.routines) {g : Graph}
    (body : r.graph = some g) :
    ∃ symbol, p.symbols.routine? r.symbol = some symbol ∧
      ((s.all.filter fun d => d.routine == r.symbol).filter
          fun d => d.finding = .yieldUnsupported) =
        ((g.reached fun id => ∃ kind, g.Guards kind id).flatMap fun b =>
          (b.statements.filter Statement.isYield).map fun s =>
            ⟨r.symbol, s.span.getD symbol.heading, .yieldUnsupported⟩) ∧
      ((s.all.filter fun d => d.routine == r.symbol).filter
          fun d => d.finding = .returnUnsupported) =
        ((g.reached (g.Guards .final)).flatMap fun b =>
          (b.statements.filter fun s => s.isReturn && s.span.isSome).map fun s =>
            ⟨r.symbol, s.span.getD symbol.heading, .returnUnsupported⟩) ∧
      ∀ d ∈ s.all, d.routine = r.symbol → d.code = "E0108" →
        d.finding = .yieldUnsupported ∨ d.finding = .returnUnsupported := by
  rw [defect?_eq_none_iff] at valid
  obtain ⟨symbol, declared⟩ := valid.declared r listed
  have sound := valid.sound r listed g body
  have own := yields.filter_routine valid listed
  refine ⟨symbol, declared, ?_, ?_, ?_⟩
  · rw [own]
    exact Routine.filter_yield sound body declared
  · rw [own]
    exact Routine.filter_return sound body declared
  · intro d member same missing
    have among : d ∈ r.diagnostics p.symbols := by
      rw [← own]
      exact List.mem_filter.2 ⟨member, beq_iff_eq.2 same⟩
    exact Routine.notImplemented_cases body declared among missing

/-- A generator that yields in the body of a construct, in its handler and behind it, and returns
from its final block; a loop leads back to the construct. -/
def guardedYields : Graph :=
  let yieldAt (span : Span) : Statement := ⟨.yield none none, some span⟩
  { start := 0
    exit := 5
    blocks :=
      [⟨0, .start, [], some (.guarded ⟨1, [2], some 3, 4⟩)⟩,
       ⟨1, .plain, [yieldAt ⟨10, 15⟩], some (.loopBack 0)⟩,
       ⟨2, .handler ⟨[], none⟩, [yieldAt ⟨20, 25⟩], some (.jump 3)⟩,
       ⟨3, .final, [⟨.return none, some ⟨30, 36⟩⟩], some (.jump 4)⟩,
       ⟨4, .plain, [yieldAt ⟨40, 45⟩], some (.jump 5)⟩,
       ⟨5, .exit, [], none⟩]
    labels := []
    unreachable := [] }

def generator : Program :=
  { symbols :=
      ⟨[], [⟨"numbers", .function, none, [], false, false, none, none, ⟨0, 7⟩⟩]⟩
    routines := [⟨0, some guardedYields, .empty⟩] }

theorem generator_valid : generator.Valid where
  declared := by simp [generator, SymbolTable.routine?]
  distinct := by decide
  sound := by
    intro r member g body
    obtain rfl := List.mem_singleton.1 member
    obtain rfl := Option.some.inj body
    constructor
    · unfold Ascending
      decide
    · decide

theorem guardedYields_enters {id : Nat} (target : id ∈ [1, 2, 3, 4]) :
    guardedYields.Reachable id :=
  .single ⟨_, List.mem_cons_self, rfl, _, rfl, target⟩

theorem guardedYields_guards {kind : RegionKind} {id : Nat}
    (covers : (⟨1, [2], some 3, 4⟩ : TryConstruct).Covers kind id) : guardedYields.Guards kind id :=
  ⟨_, List.mem_cons_self, .refl, _, rfl, covers⟩

theorem lt_of_guardedYields_guards {kind : RegionKind} {id : Nat}
    (guarded : guardedYields.Guards kind id) : id < 4 := by
  obtain ⟨a, leaving, -, t, construct, covered⟩ := guarded
  have single : t = ⟨1, [2], some 3, 4⟩ := by
    simp only [guardedYields, List.mem_cons, List.not_mem_nil, or_false] at leaving
    rcases leaving with rfl | rfl | rfl | rfl | rfl | rfl <;> simp at construct
    exact construct.symm
  subst single
  obtain ⟨i, part, within⟩ := TryConstruct.covers_iff.1 covered
  have ends : i.high ≤ 4 := by
    cases kind <;> obtain rfl := List.mem_singleton.1 part <;> decide
  exact Nat.lt_of_lt_of_le within.2 ends

theorem generator_notImplemented :
    generator.defect? = none ∧
      ⟨0, ⟨20, 25⟩, .yieldUnsupported⟩ ∈ generator.analyze.all ∧
      ⟨0, ⟨30, 36⟩, .returnUnsupported⟩ ∈ generator.analyze.all ∧
      ⟨0, ⟨40, 45⟩, .yieldUnsupported⟩ ∉ generator.analyze.all := by
  have valid := defect?_eq_none_iff.2 generator_valid
  obtain ⟨symbol, declared, yielded, returned, -⟩ :=
    notImplemented_exact valid (yields_analyze _) (r := ⟨0, some guardedYields, .empty⟩)
      (List.mem_singleton.2 rfl) rfl
  refine ⟨valid, ?_, ?_, fun member => ?_⟩
  · have handled : guardedYields.blocks[2] ∈
        guardedYields.reached fun id => ∃ kind, guardedYields.Guards kind id :=
      Graph.mem_reached_iff.2 ⟨by simp [guardedYields], guardedYields_enters (by decide), .handler,
        guardedYields_guards (.handler 0 rfl (by decide) (by decide))⟩
    have among : (⟨0, ⟨20, 25⟩, .yieldUnsupported⟩ : Diagnostic) ∈
        (generator.analyze.all.filter fun d => d.routine == 0).filter
          fun d => d.finding = .yieldUnsupported := by
      rw [yielded]
      exact List.mem_flatMap.2 ⟨_, handled, by simp [guardedYields, Statement.isYield]⟩
    exact List.mem_of_mem_filter (List.mem_of_mem_filter among)
  · have final : guardedYields.blocks[3] ∈ guardedYields.reached (guardedYields.Guards .final) :=
      Graph.mem_reached_iff.2 ⟨by simp [guardedYields], guardedYields_enters (by decide),
        guardedYields_guards (.final rfl (by decide) (by decide))⟩
    have among : (⟨0, ⟨30, 36⟩, .returnUnsupported⟩ : Diagnostic) ∈
        (generator.analyze.all.filter fun d => d.routine == 0).filter
          fun d => d.finding = .returnUnsupported := by
      rw [returned]
      exact List.mem_flatMap.2 ⟨_, final, by simp [guardedYields, Statement.isReturn]⟩
    exact List.mem_of_mem_filter (List.mem_of_mem_filter among)
  · have among : (⟨0, ⟨40, 45⟩, .yieldUnsupported⟩ : Diagnostic) ∈
        (generator.analyze.all.filter fun d => d.routine == 0).filter
          fun d => d.finding = .yieldUnsupported :=
      List.mem_filter.2 ⟨List.mem_filter.2 ⟨member, rfl⟩, rfl⟩
    rw [yielded] at among
    obtain ⟨b, reached, here⟩ := List.mem_flatMap.1 among
    obtain ⟨listed, -, kind, guarded⟩ := Graph.mem_reached_iff.1 reached
    have outside : b.ordinal = 4 := by
      simp only [guardedYields, List.mem_cons, List.not_mem_nil, or_false] at listed
      rcases listed with rfl | rfl | rfl | rfl | rfl | rfl <;>
        simp [Statement.isYield] at here ⊢
    exact absurd (lt_of_guardedYields_guards guarded) (by omega)

end Program

end FlowLint
