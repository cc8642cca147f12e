import FlowLint.Proofs.Graph.Address
import FlowLint.Proofs.Phase
import FlowLint.Proofs.Rule.Place
import FlowLint.Proofs.Span

/-!
Where diagnostics are. If all spans of a program are in order, so are those of its diagnostics, and
each lies within the range of its routine: the smallest one around the heading and all that has a
place in the graph. Only uses of `eval` and unreachable code have spans that were not there before.
-/

namespace FlowLint

/-- The span is that of a label, or of a node that occurs in some block. -/
def Graph.HasSpan (g : Graph) (t : Span) : Prop :=
  (∃ l ∈ g.labels, l.span = t) ∨
    ∃ b ∈ g.blocks, ∃ path n, (Node.block b).Occurs path n ∧ t ∈ n.spans

def RoutineSymbol.HasSpan (symbol : RoutineSymbol) (g : Graph) (t : Span) : Prop :=
  t = symbol.heading ∨ g.HasSpan t

namespace Graph

variable {g : Graph}

theorem hasSpan_of_entered {b : Block} {n : Node} {t : Span} (listed : b ∈ g.blocks)
    (inside : n ∈ (Node.block b).entered) (own : t ∈ n.spans) : g.HasSpan t := by
  obtain ⟨path, occurs⟩ := Node.mem_entered_iff_occurs.1 inside
  exact .inr ⟨b, listed, path, n, occurs, own⟩

def spans (g : Graph) : List Span :=
  g.labels.map Label.span ++ g.blocks.flatMap fun b => (Node.block b).entered.flatMap Node.spans

theorem mem_spans_iff {t : Span} : t ∈ g.spans ↔ g.HasSpan t := by
  simp only [spans, List.mem_append, List.mem_map, List.mem_flatMap]
  constructor
  · rintro (label | ⟨b, listed, n, inside, own⟩)
    · exact .inl label
    · exact hasSpan_of_entered listed inside own
  · rintro (label | ⟨b, listed, path, n, occurs, own⟩)
    · exact .inl label
    · exact .inr ⟨b, listed, n, Node.mem_entered_iff_occurs.2 ⟨path, occurs⟩, own⟩

end Graph

theorem RoutineSymbol.exists_isHull (symbol : RoutineSymbol) (g : Graph) :
    ∃ hull, Span.IsHull (symbol.HasSpan g) hull := by
  have joined : Span.joinAll (symbol.heading :: g.spans) = some _ := rfl
  have same : symbol.HasSpan g = (· ∈ symbol.heading :: g.spans) := by
    funext t
    rw [HasSpan, List.mem_cons, Graph.mem_spans_iff]
  rw [same]
  exact ⟨_, Span.isHull_of_joinAll joined⟩

def Graph.HasEval (g : Graph) (t : Span) : Prop :=
  ∃ b ∈ g.blocks, ∃ path e code, (Node.block b).Occurs path (.expr e) ∧ e.form = .eval code ∧
    e.span = some t

/-- Where a remark may be, given the spans of its routine. -/
inductive Remark.IsPlaced (symbol : RoutineSymbol) (g : Graph) : Remark → Prop where
  | nowhere {f : Finding} : f.code ≠ "W0201" → IsPlaced symbol g ⟨none, f⟩
  | literal {t : Span} {f : Finding} : symbol.HasSpan g t → f ≠ .evalUsed → f.code ≠ "W0201" →
      IsPlaced symbol g ⟨some t, f⟩
  | keyword {t : Span} : g.HasEval t → IsPlaced symbol g ⟨some (t.take 4), .evalUsed⟩
  | dead {b : Block} {hull : Span} : b ∈ g.blocks → b.ordinal ∈ g.unreachable →
      Span.IsHull (fun t => ∃ s ∈ b.statements, s.span = some t) hull →
      IsPlaced symbol g ⟨some hull, .unreachableCode⟩

theorem PointsAt.isPlaced {symbol : RoutineSymbol} {g : Graph} {rs : List Remark}
    (points : PointsAt (symbol.HasSpan g) rs) {r : Remark} (member : r ∈ rs)
    (other : r.finding.code ≠ "W0201") : r.IsPlaced symbol g := by
  obtain ⟨span, f⟩ := r
  obtain ⟨plain, fits⟩ := points _ member
  cases span with
  | none => exact .nowhere other
  | some t => exact .literal (fits t rfl) plain other

namespace Graph

variable {g : Graph} {t : Span}

theorem HasEval.hasSpan (use : g.HasEval t) : g.HasSpan t := by
  obtain ⟨b, listed, path, e, -, occurs, -, span⟩ := use
  exact .inr ⟨b, listed, path, .expr e, occurs, Node.mem_spans_of_expr span⟩

theorem hasSpan_of_statement {b : Block} {s : Statement} (listed : b ∈ g.blocks)
    (member : s ∈ b.statements) (span : s.span = some t) : g.HasSpan t := by
  obtain ⟨i, found⟩ := List.getElem?_of_mem member
  exact .inr ⟨b, listed, [⟨2, i, 0⟩], .statement s, .within (.statement found) .here,
    Node.mem_spans_of_statement span⟩

end Graph

namespace Context

variable {c : Context} {g : Graph}

theorem isPlaced_of_node {b : Block} {n : Node} {r : Remark} {around : Surroundings}
    (listed : b ∈ g.blocks) (inside : n ∈ (Node.block b).entered)
    (member : r ∈ c.enter around n ++ c.leave n) (other : r.finding.code ≠ "W0201") :
    r.IsPlaced c.symbol g := by
  have own (m : Node) (within : m ∈ (Node.block b).entered) :
      ∀ t ∈ m.spans, c.symbol.HasSpan g t :=
    fun t among => .inr (Graph.hasSpan_of_entered listed within among)
  by_cases eval : ∃ e code, n = .expr e ∧ e.form = .eval code
  · obtain ⟨e, code, rfl, form⟩ := eval
    have only : r = ⟨e.span.map (·.take 4), .evalUsed⟩ := by
      simpa [enter, enterExpr, leave, leaveExpr, form, evalUse] using member
    rw [only]
    cases span : e.span with
    | none => exact .nowhere (by decide)
    | some t =>
      obtain ⟨path, occurs⟩ := Node.mem_entered_iff_occurs.1 inside
      exact .keyword ⟨b, listed, path, e, code, occurs, form, span⟩
  · have plain : ∀ e code, n = .expr e → e.form ≠ .eval code :=
      fun e code same form => eval ⟨e, code, same, form⟩
    have parts (m : Node) (child : m ∈ n.children) : ∀ t ∈ m.spans, c.symbol.HasSpan g t :=
      own m (Node.child_mem_entered inside child)
    exact (c.node_pointsAt around (own n inside) parts plain).isPlaced member other

theorem isPlaced_of_walk (sorted : Ascending g.blocks) {r : Remark}
    (member : r ∈ (c.walk g).found) : r.IsPlaced c.symbol g := by
  have other : r.finding.code ≠ "W0201" := by
    intro same
    exact c.walk_not_routine r member (same ▸ by decide)
  rw [walk_found] at member
  obtain ⟨b, reached, inside⟩ := List.mem_flatMap.1 member
  obtain ⟨n, within, here⟩ := (c.mem_remarks_iff _).1 inside
  have listed := ((Graph.mem_reachableBlocks_iff sorted).1 reached).1
  exact isPlaced_of_node listed within (List.mem_append.2 here) other

theorem isPlaced_of_dead (sorted : Ascending g.blocks) {r : Remark}
    (member : r ∈ unreachableCode g) : r.IsPlaced c.symbol g := by
  rw [unreachableCode_eq sorted] at member
  obtain ⟨hull, source, rfl⟩ := List.mem_map.1 member
  obtain ⟨b, chosen, joined⟩ := List.mem_filterMap.1 source
  obtain ⟨listed, unreachable⟩ := List.mem_filter.1 chosen
  refine .dead listed (of_decide_eq_true unreachable) ?_
  simpa only [List.mem_filterMap] using Span.isHull_of_joinAll joined

theorem isPlaced_of_routine (sorted : Ascending g.blocks) {r : Remark} (member : r ∈ c.routine g) :
    r.IsPlaced c.symbol g := by
  rw [routine] at member
  rcases List.mem_append.1 member with member | dead
  · rcases List.mem_append.1 member with member | label
    · rcases List.mem_append.1 member with walked | omitted
      · exact isPlaced_of_walk sorted walked
      · rw [(mem_remarkIf.1 omitted).2]
        exact .literal (.inl rfl) (by simp) (by simp [Finding.code])
    · obtain ⟨l, listed, told⟩ := List.mem_flatMap.1 label
      have place : c.symbol.HasSpan g l.span := .inr (.inl ⟨l, listed, rfl⟩)
      rcases List.mem_append.1 told with undefined | redefined
      · rw [(mem_remarkIf.1 undefined).2]
        exact .literal place (by simp) (by simp [Finding.code])
      · rw [(mem_remarkIf.1 redefined).2]
        exact .literal place (by simp) (by simp [Finding.code])
  · exact isPlaced_of_dead sorted dead

end Context

/-- Where a diagnostic is, given the spans of its routine. -/
structure Diagnostic.IsPlaced (symbol : RoutineSymbol) (g : Graph) (d : Diagnostic) : Prop where
  literal : d.code ≠ "I0304" → d.code ≠ "W0201" → symbol.HasSpan g d.span
  /-- At most the first four bytes, or the heading if the use has no place. -/
  keyword : d.code = "I0304" → d.span = symbol.heading ∨ ∃ t, g.HasEval t ∧
    d.span.start = t.start ∧ d.span.stop ≤ t.stop ∧ d.span.length = min 4 t.length
  dead : d.code = "W0201" → ∃ b ∈ g.blocks, b.ordinal ∈ g.unreachable ∧
    Span.IsHull (fun t => ∃ s ∈ b.statements, s.span = some t) d.span

theorem Finding.eq_evalUsed {f : Finding} (same : f.code = "I0304") : f = .evalUsed := by
  cases f <;> simp_all [code]

namespace Remark.IsPlaced

variable {symbol : RoutineSymbol} {g : Graph} {r : Remark}

theorem diagnostic (placed : r.IsPlaced symbol g) (id : RoutineId) :
    (r.diagnostic id symbol.heading).IsPlaced symbol g := by
  cases placed with
  | nowhere other =>
    exact ⟨fun _ _ => .inl rfl, fun _ => .inl rfl, fun same => absurd same other⟩
  | literal has plain other =>
    exact ⟨fun _ _ => has, fun same => absurd (Finding.eq_evalUsed same) plain,
      fun same => absurd same other⟩
  | @keyword t use =>
    have alive : Finding.evalUsed.code ≠ "W0201" := by decide
    exact ⟨fun other => absurd rfl other,
      fun _ => .inr ⟨t, use, rfl, Nat.min_le_right _ _, t.length_take 4⟩,
      fun same => absurd same alive⟩
  | dead listed unreachable isHull =>
    have unused : Finding.unreachableCode.code ≠ "I0304" := by decide
    exact ⟨fun _ other => absurd rfl other, fun same => absurd same unused,
      fun _ => ⟨_, listed, unreachable, isHull⟩⟩

theorem within {hull : Span} (placed : r.IsPlaced symbol g)
    (isHull : Span.IsHull (symbol.HasSpan g) hull)
    (forward : ∀ t, symbol.HasSpan g t → t.IsForward) (id : RoutineId) :
    (r.diagnostic id symbol.heading).span.IsForward ∧
      hull.Covers (r.diagnostic id symbol.heading).span := by
  cases placed with
  | nowhere => exact ⟨forward _ (.inl rfl), isHull.covers _ (.inl rfl)⟩
  | literal has => exact ⟨forward _ has, isHull.covers _ has⟩
  | @keyword t use =>
    have has : symbol.HasSpan g t := .inr use.hasSpan
    exact ⟨(forward t has).take 4, (isHull.covers t has).trans (t.take_covers 4)⟩
  | @dead b _ listed unreachable inner =>
    have has (t : Span) (source : ∃ s ∈ b.statements, s.span = some t) : symbol.HasSpan g t := by
      obtain ⟨s, member, span⟩ := source
      exact .inr (Graph.hasSpan_of_statement listed member span)
    obtain ⟨t, source⟩ := inner.nonempty
    exact ⟨(inner.covers t source).isForward (forward t (has t source)),
      inner.least hull fun u inside => isHull.covers u (has u inside)⟩

end Remark.IsPlaced

namespace Program

def IsForward (p : Program) : Prop :=
  ∀ r ∈ p.routines, ∀ symbol g, p.symbols.routine? r.symbol = some symbol → r.graph = some g →
    ∀ t, symbol.HasSpan g t → t.IsForward

/-- If all spans of a program are in order, so is that of each diagnostic, and it lies within the
smallest range around the spans of its routine. It is one of these spans, but for the keyword of a
use of `eval` and for unreachable code, whose span is the smallest one around the statements of a
block. -/
theorem covered_exact {p : Program} {s : Sink} (valid : p.defect? = none) (forward : p.IsForward)
    (yields : p.Yields s) :
    ∀ d ∈ s.all, ∃ r ∈ p.routines, ∃ symbol g, p.symbols.routine? r.symbol = some symbol ∧
      r.graph = some g ∧ d.routine = r.symbol ∧ d.span.IsForward ∧
      (∃ hull, Span.IsHull (symbol.HasSpan g) hull ∧ hull.Covers d.span) ∧
      d.IsPlaced symbol g := by
  rw [defect?_eq_none_iff] at valid
  intro d member
  obtain ⟨r, listed, told⟩ := (yields.mem_all_iff valid).1 member
  obtain ⟨symbol, declared⟩ := valid.declared r listed
  cases body : r.graph with
  | none =>
    rw [diagnostics_of_no_graph body] at told
    cases told
  | some g =>
    have sorted := (valid.sound r listed g body).sorted
    rw [Routine.diagnostics_eq body declared] at told
    obtain ⟨remark, made, rfl⟩ := List.mem_map.1 told
    have placed := Context.isPlaced_of_routine sorted made
    obtain ⟨hull, isHull⟩ := symbol.exists_isHull g
    obtain ⟨inOrder, within⟩ :=
      placed.within isHull (forward r listed symbol g declared body) r.symbol
    exact ⟨r, listed, symbol, g, declared, body, rfl, inOrder, ⟨hull, isHull, within⟩,
      placed.diagnostic r.symbol⟩

def strandedGraph : Graph :=
  { start := 0
    exit := 2
    blocks :=
      [⟨0, .start, [], some (.jump 2)⟩,
       ⟨1, .plain, [⟨.echo [], some ⟨14, 20⟩⟩, ⟨.echo [], some ⟨10, 12⟩⟩], some (.jump 2)⟩,
       ⟨2, .exit, [], none⟩]
    labels := []
    unreachable := [1] }

def stranded : Program :=
  { symbols := ⟨[], [Context.script.symbol]⟩
    routines := [⟨0, some strandedGraph, .empty⟩] }

theorem strandedGraph_sound : strandedGraph.Sound := ⟨by decide, by decide⟩

theorem stranded_valid : stranded.Valid where
  declared := by simp [stranded, SymbolTable.routine?]
  distinct := List.nodup_singleton _
  sound := by simp [stranded, strandedGraph_sound]

theorem stranded_isForward : stranded.IsForward := by
  intro r listed symbol g declared body t has
  obtain rfl := List.mem_singleton.1 listed
  cases declared
  cases body
  rcases has with rfl | has
  · exact Nat.le_refl 0
  · rw [← Graph.mem_spans_iff] at has
    have known : t = ⟨14, 20⟩ ∨ t = ⟨10, 12⟩ := by
      simpa [Graph.spans, strandedGraph, Node.entered_eq, Node.children, Statement.parts,
        Edge.parts, Node.spans] using has
    rcases known with rfl | rfl
    · exact Nat.le_add_right 14 6
    · exact Nat.le_add_right 10 2

theorem stranded_found : ⟨0, ⟨10, 20⟩, .unreachableCode⟩ ∈ stranded.analyze.all := by
  let r : Routine := ⟨0, some strandedGraph, .empty⟩
  have source : strandedGraph.deadSource = [⟨10, 20⟩] := rfl
  have told : ⟨0, ⟨10, 20⟩, .unreachableCode⟩ ∈ r.diagnostics stranded.symbols := by
    rw [Routine.diagnostics_phases strandedGraph_sound.sorted rfl rfl, Routine.dead, source]
    exact List.mem_append_right _ List.mem_cons_self
  exact ((yields_analyze _).mem_all_iff stranded_valid).2 ⟨r, List.mem_cons_self, told⟩

theorem stranded_covered :
    stranded.defect? = none ∧ stranded.IsForward ∧
      ⟨0, ⟨10, 20⟩, .unreachableCode⟩ ∈ stranded.analyze.all ∧
      ∃ b ∈ strandedGraph.blocks, b.ordinal ∈ strandedGraph.unreachable ∧
        Span.IsHull (fun t => ∃ s ∈ b.statements, s.span = some t) ⟨10, 20⟩ := by
  have valid := defect?_eq_none_iff.2 stranded_valid
  obtain ⟨r, listed, symbol, g, -, body, -, -, -, placed⟩ :=
    covered_exact valid stranded_isForward (yields_analyze _) _ stranded_found
  obtain rfl := List.mem_singleton.1 listed
  cases body
  exact ⟨valid, stranded_isForward, stranded_found, placed.dead rfl⟩

end Program

end FlowLint
