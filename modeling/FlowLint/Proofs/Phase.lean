import FlowLint.Proofs.ParentConstructor

/-!
The order of the diagnostics of a routine. What the walk finds comes first, then each of the rules
on the routine as a whole has its say. By the documentation the labels come before the constructor
of the parent; the analysis looks at them after it, which shows if there is something to say of
both.
-/

namespace FlowLint

/-- The parts of the analysis of a routine, in the documented order. -/
inductive Phase where
  | walk
  | labels
  | parent
  | unreachable
  deriving DecidableEq, Repr

def Phase.rank : Phase → Nat
  | walk => 0
  | labels => 1
  | parent => 2
  | unreachable => 3

theorem Phase.rank_le (phase : Phase) : phase.rank ≤ unreachable.rank := by
  cases phase <;> decide

/-- The part of the analysis that makes the finding. -/
def Finding.phase : Finding → Phase
  | undefinedLabel _ | redefinedLabel _ => .labels
  | parentConstructorNotCalled _ => .parent
  | unreachableCode => .unreachable
  | _ => .walk

theorem Finding.phase_eq_walk {f : Finding} (other : f.code ∉ routineCodes) : f.phase = .walk := by
  cases f <;> simp_all [phase, code, routineCodes]

def Diagnostic.phase (d : Diagnostic) : Phase := d.finding.phase

def InPhase (phase : Phase) (ds : List Diagnostic) : Prop := ∀ d ∈ ds, d.phase = phase

/-- The diagnostics come in the documented order. -/
def InOrder (ds : List Diagnostic) : Prop := ds.Pairwise fun d e => d.phase.rank ≤ e.phase.rank

theorem InPhase.inOrder {phase : Phase} {ds : List Diagnostic} (same : InPhase phase ds) :
    InOrder ds := by
  apply List.pairwise_of_forall_mem_list
  intro d first e second
  have alike : d.phase = e.phase := (same d first).trans (same e second).symm
  exact Nat.le_of_eq (congrArg Phase.rank alike)

theorem InOrder.append {phase : Phase} {first second : List Diagnostic} (ordered : InOrder first)
    (before : ∀ d ∈ first, d.phase.rank ≤ phase.rank) (same : InPhase phase second) :
    InOrder (first ++ second) := by
  refine List.pairwise_append.2 ⟨ordered, same.inOrder, fun d left e right => ?_⟩
  rw [same e right]
  exact before d left

/-- With the parent in front of the labels, the order is the documented one only if there is nothing
to say of one of them. -/
theorem inOrder_iff {walked omitted labelled dead : List Diagnostic} (walk : InPhase .walk walked)
    (parent : InPhase .parent omitted) (labels : InPhase .labels labelled)
    (unreachable : InPhase .unreachable dead) :
    InOrder (walked ++ omitted ++ labelled ++ dead) ↔ omitted = [] ∨ labelled = [] := by
  constructor
  · intro ordered
    by_contra both
    obtain ⟨some, other⟩ := not_or.1 both
    obtain ⟨d, told⟩ := List.exists_mem_of_ne_nil omitted some
    obtain ⟨e, spoken⟩ := List.exists_mem_of_ne_nil labelled other
    have apart := (List.pairwise_append.1 (List.pairwise_append.1 ordered).1).2.2
    have wrong : d.phase.rank ≤ e.phase.rank := apart d (List.mem_append_right _ told) e spoken
    rw [parent d told, labels e spoken] at wrong
    exact absurd wrong (by decide)
  · have first : ∀ (phase : Phase), ∀ d ∈ walked, d.phase.rank ≤ phase.rank := by
      intro phase d member
      rw [walk d member]
      exact Nat.zero_le _
    have closed {others : List Diagnostic} (ordered : InOrder others) : InOrder (others ++ dead) :=
      ordered.append (fun d _ => d.phase.rank_le) unreachable
    intro one
    cases one with
    | inl nothing =>
      rw [nothing, List.append_nil]
      exact closed (walk.inOrder.append (first .labels) labels)
    | inr nothing =>
      rw [nothing, List.append_nil]
      exact closed (walk.inOrder.append (first .parent) parent)

def Label.diagnostics (id : RoutineId) (l : Label) : List Diagnostic :=
  (if l.isDefined then [] else [⟨id, l.span, .undefinedLabel l.name⟩]) ++
    if l.isRedefined then [⟨id, l.span, .redefinedLabel l.name⟩] else []

theorem Label.diagnostics_eq_nil_iff {id : RoutineId} {l : Label} :
    l.diagnostics id = [] ↔ l.isDefined = true ∧ l.isRedefined = false := by
  cases defined : l.isDefined <;> cases redefined : l.isRedefined <;>
    simp [diagnostics, defined, redefined]

theorem Context.labels_diagnostics (list : List Label) (id : RoutineId) (heading : Span) :
    (labels list).map (·.diagnostic id heading) = list.flatMap (Label.diagnostics id) := by
  rw [labels, List.map_flatMap]
  apply List.flatMap_congr
  intro l _
  cases defined : l.isDefined <;> cases redefined : l.isRedefined <;>
    simp [Label.diagnostics, remarkIf, Remark.diagnostic, defined, redefined]

/-- The source of the blocks that are listed as unreachable, in ascending order of the blocks. Those
without source are left out. -/
def Graph.deadSource (g : Graph) : List Span :=
  (g.blocks.filter fun b => b.ordinal ∈ g.unreachable).filterMap fun b =>
    Span.joinAll (b.statements.filterMap (·.span))

theorem Context.unreachableCode_eq {g : Graph} (sorted : Ascending g.blocks) :
    unreachableCode g = g.deadSource.map fun span => ⟨some span, .unreachableCode⟩ := by
  let source (b : Block) : Option Span := Span.joinAll (b.statements.filterMap (·.span))
  have listed : (unreachableIds g).filterMap g.block? =
      g.blocks.filter fun b => b.ordinal ∈ g.unreachable := by
    rw [Graph.filterMap_block? sorted (unreachableIds_pairwise g)]
    simp only [mem_unreachableIds_iff]
  calc
    unreachableCode g =
        ((unreachableIds g).filterMap fun id => (g.block? id).bind source).map
          fun span => ⟨some span, .unreachableCode⟩ := by
      rw [List.map_filterMap]
      rfl
    _ = (((unreachableIds g).filterMap g.block?).filterMap source).map
          fun span => ⟨some span, .unreachableCode⟩ := by
      rw [List.filterMap_filterMap]
    _ = g.deadSource.map fun span => ⟨some span, .unreachableCode⟩ := by
      rw [listed]
      rfl

namespace Routine

variable {symbols : SymbolTable} {r : Routine} {symbol : RoutineSymbol} {g : Graph}

theorem walked_inPhase : InPhase .walk (r.walked symbols symbol g) := by
  intro d member
  obtain ⟨remark, found, rfl⟩ := List.mem_map.1 member
  exact Finding.phase_eq_walk ((r.context symbols symbol).walk_not_routine remark found)

def omitted (symbols : SymbolTable) (r : Routine) (symbol : RoutineSymbol) (g : Graph) :
    List Diagnostic :=
  ((r.context symbols symbol).parentConstructor
    ((r.context symbols symbol).walk g).callsParent).map (·.diagnostic r.symbol symbol.heading)

open Classical in
theorem omitted_eq (sorted : Ascending g.blocks) :
    r.omitted symbols symbol g =
      if symbol.OwesParent symbols ∧ ¬ g.CallsParent then
        [⟨r.symbol, symbol.heading,
          .parentConstructorNotCalled (((symbols.ownerOf symbol).map (·.name)).getD "")⟩]
      else [] := by
  rw [omitted, Context.parentConstructor_walk _ sorted, apply_ite (List.map _)]
  rfl

theorem omitted_eq_nil_iff (sorted : Ascending g.blocks) :
    r.omitted symbols symbol g = [] ↔ ¬ (symbol.OwesParent symbols ∧ ¬ g.CallsParent) := by
  classical
  rw [omitted_eq sorted, ite_eq_right_iff]
  constructor
  · intro never omits
    exact List.cons_ne_nil _ _ (never omits)
  · intro makes omits
    exact absurd omits makes

theorem length_omitted_le (sorted : Ascending g.blocks) :
    (r.omitted symbols symbol g).length ≤ 1 := by
  rw [omitted_eq sorted]
  split
  · exact Nat.le_refl 1
  · exact Nat.zero_le 1

theorem omitted_inPhase (sorted : Ascending g.blocks) :
    InPhase .parent (r.omitted symbols symbol g) := by
  rw [omitted_eq sorted]
  split
  · exact List.forall_mem_singleton.2 rfl
  · exact List.forall_mem_nil _

theorem labels_inPhase (list : List Label) :
    InPhase .labels (list.flatMap (Label.diagnostics r.symbol)) := by
  intro d member
  obtain ⟨l, -, told⟩ := List.mem_flatMap.1 member
  rcases List.mem_append.1 told with undefined | redefined
  · split at undefined
    · cases undefined
    · rw [List.mem_singleton.1 undefined]
      rfl
  · split at redefined
    · rw [List.mem_singleton.1 redefined]
      rfl
    · cases redefined

def dead (r : Routine) (g : Graph) : List Diagnostic :=
  g.deadSource.map fun span => ⟨r.symbol, span, .unreachableCode⟩

theorem dead_inPhase : InPhase .unreachable (r.dead g) := by
  intro d member
  obtain ⟨span, -, rfl⟩ := List.mem_map.1 member
  rfl

/-- The order in which the analysis makes the diagnostics. -/
theorem diagnostics_phases (sorted : Ascending g.blocks) (body : r.graph = some g)
    (declared : symbols.routine? r.symbol = some symbol) :
    r.diagnostics symbols =
      r.walked symbols symbol g ++ r.omitted symbols symbol g ++
        g.labels.flatMap (Label.diagnostics r.symbol) ++ r.dead g := by
  let c := r.context symbols symbol
  have unreachable : (Context.unreachableCode g).map (·.diagnostic r.symbol symbol.heading) =
      r.dead g := by
    rw [Context.unreachableCode_eq sorted, List.map_map]
    rfl
  calc
    r.diagnostics symbols = (c.routine g).map (·.diagnostic r.symbol symbol.heading) :=
      diagnostics_eq body declared
    _ = r.walked symbols symbol g ++ r.omitted symbols symbol g ++
          (Context.labels g.labels).map (·.diagnostic r.symbol symbol.heading) ++
          (Context.unreachableCode g).map (·.diagnostic r.symbol symbol.heading) := by
      simp only [Context.routine, List.map_append]
      rfl
    _ = _ := by
      rw [Context.labels_diagnostics, unreachable]

theorem diagnostics_inOrder_iff (sorted : Ascending g.blocks) (body : r.graph = some g)
    (declared : symbols.routine? r.symbol = some symbol) :
    InOrder (r.diagnostics symbols) ↔
      ¬ (symbol.OwesParent symbols ∧ ¬ g.CallsParent) ∨
        ∀ l ∈ g.labels, l.isDefined = true ∧ l.isRedefined = false := by
  rw [diagnostics_phases sorted body declared, inOrder_iff walked_inPhase (omitted_inPhase sorted)
    (labels_inPhase g.labels) dead_inPhase, omitted_eq_nil_iff sorted, List.flatMap_eq_nil_iff]
  simp only [Label.diagnostics_eq_nil_iff]

end Routine

namespace Program

/-- The diagnostics of a routine are those of the walk, then at most one on the constructor of its
parent, then those on its labels as they are listed, then those on the blocks that control cannot
reach, in ascending order. This is the documented order exactly if there is nothing to say of the
parent or of the labels. -/
theorem phases_exact {p : Program} {s : Sink} {r : Routine} {g : Graph}
    (valid : p.defect? = none) (yields : p.Yields s) (listed : r ∈ p.routines)
    (body : r.graph = some g) :
    ∃ symbol, p.symbols.routine? r.symbol = some symbol ∧
      (s.all.filter fun d => d.routine == r.symbol) =
          r.walked p.symbols symbol g ++ r.omitted p.symbols symbol g ++
            g.labels.flatMap (Label.diagnostics r.symbol) ++ r.dead g ∧
      (InPhase .walk (r.walked p.symbols symbol g) ∧
        InPhase .parent (r.omitted p.symbols symbol g) ∧
        InPhase .labels (g.labels.flatMap (Label.diagnostics r.symbol)) ∧
        InPhase .unreachable (r.dead g)) ∧
      (r.omitted p.symbols symbol g).length ≤ 1 ∧
      (InOrder (s.all.filter fun d => d.routine == r.symbol) ↔
        ¬ (symbol.OwesParent p.symbols ∧ ¬ g.CallsParent) ∨
          ∀ l ∈ g.labels, l.isDefined = true ∧ l.isRedefined = false) := by
  rw [defect?_eq_none_iff] at valid
  obtain ⟨symbol, declared⟩ := valid.declared r listed
  have sorted := (valid.sound r listed g body).sorted
  have own := yields.filter_routine valid listed
  refine ⟨symbol, declared, ?_, ?_, Routine.length_omitted_le sorted, ?_⟩
  · rw [own, Routine.diagnostics_phases sorted body declared]
  · exact ⟨Routine.walked_inPhase, Routine.omitted_inPhase sorted, Routine.labels_inPhase _,
      Routine.dead_inPhase⟩
  · rw [own]
    exact Routine.diagnostics_inOrder_iff sorted body declared

theorem callBehindReturn_inOrder :
    (derivedClass (returning callBehindReturn)).defect? = none ∧
      InOrder ((derivedClass (returning callBehindReturn)).analyze.all.filter
        fun d => d.routine == 1) := by
  have valid := defect?_eq_none_iff.2 (derivedClass_valid callBehindReturn_sound)
  obtain ⟨_, -, -, -, -, ordered⟩ :=
    phases_exact valid (yields_analyze _) (List.mem_singleton.2 rfl) rfl
  exact ⟨valid, ordered.2 (.inr (List.forall_mem_nil _))⟩

def jumping : Graph :=
  { start := 0
    exit := 1
    blocks := [⟨0, .start, [], some (.jump 1)⟩, ⟨1, .exit, [], none⟩]
    labels := [⟨"end", ⟨60, 63⟩, false, true, false⟩]
    unreachable := [] }

theorem jumping_sound : jumping.Sound := ⟨by decide, by decide⟩

theorem jumping_callsNothing : ¬ jumping.CallsParent := by
  rintro ⟨b, listed, -, e, inside, -⟩
  rw [← Node.mem_entered_iff] at inside
  simp only [jumping, List.mem_cons, List.not_mem_nil, or_false] at listed
  rcases listed with rfl | rfl
  · simp [Node.entered_eq, Node.children, Edge.parts] at inside
  · simp [Node.entered_eq, Node.children] at inside

/-- The label is reported after the constructor of the parent. -/
theorem phases_disordered :
    ¬ ∀ (p : Program) (s : Sink) (r : Routine) (g : Graph), p.defect? = none → p.Yields s →
      r ∈ p.routines → r.graph = some g →
        InOrder (s.all.filter fun d => d.routine == r.symbol) := by
  intro always
  have valid := derivedClass_valid jumping_sound
  have listed : ⟨1, some jumping, .empty⟩ ∈ (derivedClass jumping).routines :=
    List.mem_singleton.2 rfl
  have yields := yields_analyze (derivedClass jumping)
  obtain ⟨symbol, declared⟩ := valid.declared _ listed
  have ordered := always _ _ _ _ (defect?_eq_none_iff.2 valid) yields listed rfl
  rw [yields.filter_routine valid listed,
    Routine.diagnostics_inOrder_iff jumping_sound.sorted rfl declared] at ordered
  rcases ordered with silent | defined
  · exact silent ⟨derivedClass_owes jumping declared, jumping_callsNothing⟩
  · exact Bool.false_ne_true (defined _ List.mem_cons_self).1

end Program

end FlowLint
