import FlowLint.Proofs.Graph.Correspondence
import FlowLint.Proofs.Pool
import FlowLint.Proofs.Remark

/-!
The analysis of programs that correspond routine by routine. What holds of the remarks on any two
corresponding blocks holds of all that the walks find, and what holds of the diagnostics of any two
corresponding routines holds of those of the whole programs.
-/

namespace FlowLint

theorem Graph.unreachable_renumbered {f : Nat → Nat} {g g' : Graph}
    (mono : StrictMonoOn f {id | id ∈ g.unreachable})
    (unreachable : g'.unreachable = g.unreachable.map f) :
    Context.unreachableIds g' = (Context.unreachableIds g).map f := by
  apply eq_of_pairwise_lt (Context.unreachableIds_pairwise g')
  · rw [List.pairwise_map]
    refine List.Pairwise.imp_of_mem ?_ (Context.unreachableIds_pairwise g)
    intro first second inFirst inSecond less
    rw [Context.mem_unreachableIds_iff] at inFirst inSecond
    exact mono inFirst inSecond less
  · simp [Context.mem_unreachableIds_iff, unreachable]

namespace Graph.Follows

variable {f : Nat → Nat} {R : Block → Block → Prop} {g g' : Graph}

theorem around_eq (follows : g.Follows f R g') (sound : g.Sound) {id : Nat}
    (reached : g.Reachable id) :
    g'.plan.regions.around (f id) = g.plan.regions.around id := by
  simp only [Regions.around, Regions.covers, follows.contains_eq sound reached]

theorem walk_found (follows : g.Follows f R g') (sound : g.Sound) (c : Context)
    {T : List Remark → List Remark → Prop} (nothing : T [] [])
    (append : ∀ {first first' second second'}, T first first' → T second second' →
      T (first ++ second) (first' ++ second'))
    (each : ∀ b b', g.Reachable b.ordinal → R b b' → ∀ around,
      T (c.remarks around (.block b)) (c.remarks around (.block b'))) :
    T (c.walk g).found (c.walk g').found := by
  rw [Context.walk_found, Context.walk_found]
  apply (follows.reachableBlocks sound).flatMap_of_append nothing append
  rintro b b' ⟨reached, related⟩
  rw [follows.ordinal b b' related, follows.around_eq sound reached]
  exact each b b' reached related _

theorem walk_callsParent (follows : g.Follows f R g') (sound : g.Sound) (c : Context)
    (each : ∀ b b', g.Reachable b.ordinal → R b b' →
      (Node.block b').entered.any Node.isParentCall =
        (Node.block b).entered.any Node.isParentCall) :
    (c.walk g').callsParent = (c.walk g).callsParent := by
  rw [Context.walk_callsParent, Context.walk_callsParent, Graph.entered, Graph.entered,
    List.any_flatMap, List.any_flatMap]
  apply (follows.reachableBlocks sound).any_eq
  rintro b b' ⟨reached, related⟩
  exact each b b' reached related

theorem sourceOf_eq (follows : g.Follows f R g') (sorted : Ascending g.blocks) {id : Nat}
    (apart : ∀ other ∈ g.ordinals, f other = f id → other = id)
    (source : ∀ b b', b.ordinal = id → R b b' →
      b'.statements.filterMap (·.span) = b.statements.filterMap (·.span)) :
    Context.sourceOf g' (f id) = Context.sourceOf g id := by
  have blocks := follows.block? sorted apart
  rw [Context.sourceOf, Context.sourceOf]
  generalize found : g.block? id = block, g'.block? (f id) = block' at blocks
  cases blocks with
  | none => rfl
  | @some b b' related =>
    have here : b.ordinal = id := ((block?_eq_some_iff sorted).1 found).2
    rw [Option.bind_some, Option.bind_some, source b b' here related]

/-- Nothing tells the code that control cannot reach apart but its blocks' source. -/
theorem unreachableCode_eq (follows : g.Follows f R g') (sorted : Ascending g.blocks)
    (mono : StrictMonoOn f (g.ordinals ∪ {id | id ∈ g.unreachable}))
    (unreachable : g'.unreachable = g.unreachable.map f)
    (source : ∀ b b', b.ordinal ∈ g.unreachable → R b b' →
      b'.statements.filterMap (·.span) = b.statements.filterMap (·.span)) :
    Context.unreachableCode g' = Context.unreachableCode g := by
  rw [Context.unreachableCode, unreachable_renumbered (mono.mono Set.subset_union_right)
    unreachable, List.filterMap_map, Context.unreachableCode]
  apply List.filterMap_congr
  intro id member
  have listed : id ∈ g.unreachable := Context.mem_unreachableIds_iff.1 member
  have apart (other : Nat) (known : other ∈ g.ordinals) (same : f other = f id) : other = id :=
    mono.injOn (.inl known) (.inr listed) same
  rw [Function.comp, follows.sourceOf_eq sorted apart fun b b' here =>
    source b b' (here ▸ listed)]

theorem routine_eq (follows : g.Follows f R g') (sound : g.Sound) (c : Context)
    (remarks : ∀ b b', g.Reachable b.ordinal → R b b' → ∀ around,
      c.remarks around (.block b') = c.remarks around (.block b))
    (calls : ∀ b b', g.Reachable b.ordinal → R b b' →
      (Node.block b').entered.any Node.isParentCall =
        (Node.block b).entered.any Node.isParentCall)
    (labels : Context.labels g'.labels = Context.labels g.labels)
    (unreachable : Context.unreachableCode g' = Context.unreachableCode g) :
    c.routine g' = c.routine g := by
  have found : (c.walk g').found = (c.walk g).found :=
    follows.walk_found sound c (T := fun rs rs' => rs' = rs) rfl
      (fun first second => congrArg₂ _ first second)
      fun b b' reached related => remarks b b' reached related
  rw [Context.routine, Context.routine, found, follows.walk_callsParent sound c calls, labels,
    unreachable]

end Graph.Follows

/-- The same routine with a related body, if it has one. -/
structure Routine.Related (G : RoutineId → Graph → Graph → Prop) (r r' : Routine) : Prop where
  symbol : r'.symbol = r.symbol
  graph : Option.Rel (G r.symbol) r.graph r'.graph
  registry : r'.registry = r.registry

structure Program.Related (G : RoutineId → Graph → Graph → Prop) (p q : Program) : Prop where
  symbols : q.symbols = p.symbols
  routines : List.Forall₂ (Routine.Related G) p.routines q.routines

/-- The program with what the function makes of each body. -/
def Program.mapBodies (f : RoutineId → Graph → Graph) (p : Program) : Program :=
  { p with routines := p.routines.map fun r => { r with graph := r.graph.map (f r.symbol) } }

theorem Program.related_mapBodies (f : RoutineId → Graph → Graph) (p : Program) :
    p.Related (fun id g g' => g' = f id g) (p.mapBodies f) where
  symbols := rfl
  routines := by
    refine .map_right (fun r => ⟨rfl, ?_, rfl⟩) p.routines
    refine .map_right ?_ r.graph
    exact fun _ => rfl

theorem Program.Valid.mapBodies {f : RoutineId → Graph → Graph} {p : Program} (valid : p.Valid)
    (sound : ∀ r ∈ p.routines, ∀ g, r.graph = some g → (f r.symbol g).Sound) :
    (p.mapBodies f).Valid where
  declared := by
    intro r member
    obtain ⟨r, listed, rfl⟩ := List.mem_map.1 member
    exact valid.declared r listed
  distinct := by
    rw [Program.mapBodies, List.map_map]
    exact valid.distinct
  sound := by
    intro r member g body
    obtain ⟨r, listed, rfl⟩ := List.mem_map.1 member
    obtain ⟨g, own, rfl⟩ := Option.map_eq_some_iff.1 body
    exact sound r listed g own

variable {G : RoutineId → Graph → Graph → Prop}

theorem Routine.Related.diagnostics {r r' : Routine} {symbols : SymbolTable}
    {D : List Diagnostic → List Diagnostic → Prop} (related : r.Related G r') (nothing : D [] [])
    (each : ∀ g g' symbol, r.graph = some g → G r.symbol g g' →
      symbols.routine? r.symbol = some symbol →
      D (((r.context symbols symbol).routine g).map (·.diagnostic r.symbol symbol.heading))
        (((r.context symbols symbol).routine g').map (·.diagnostic r.symbol symbol.heading))) :
    D (r.diagnostics symbols) (r'.diagnostics symbols) := by
  have graphs := related.graph
  unfold Routine.diagnostics
  rw [related.symbol, related.registry]
  generalize body : r.graph = graph, r'.graph = graph' at graphs
  cases graphs with
  | none => exact nothing
  | @some g g' pair =>
    cases declared : symbols.routine? r.symbol with
    | none => exact nothing
    | some symbol => exact each g g' symbol body pair declared

namespace Program.Related

variable {p q : Program} {s t : Sink}

theorem bodies (related : p.Related G q) : List.Forall₂ (Routine.Related G) p.bodies q.bodies :=
  (related.routines.filter fun _ _ pair => pair.graph.isSome_eq).mergeSort
    fun _ _ pair => pair.symbol

theorem all {D : List Diagnostic → List Diagnostic → Prop} (related : p.Related G q)
    (nothing : D [] [])
    (append : ∀ {first first' second second'}, D first first' → D second second' →
      D (first ++ second) (first' ++ second'))
    (each : ∀ r ∈ p.routines, ∀ g g' symbol, r.graph = some g → G r.symbol g g' →
      p.symbols.routine? r.symbol = some symbol →
      D (((r.context p.symbols symbol).routine g).map (·.diagnostic r.symbol symbol.heading))
        (((r.context p.symbols symbol).routine g').map (·.diagnostic r.symbol symbol.heading)))
    (valid : p.Valid) (alsoValid : q.Valid) (yields : p.Yields s) (others : q.Yields t) :
    D s.all t.all := by
  rw [yields.all_eq valid, others.all_eq alsoValid, related.symbols]
  apply related.bodies.attach.flatMap_of_append nothing append
  rintro r r' ⟨body, pair⟩
  exact pair.diagnostics nothing (each r (List.mem_of_mem_filter (List.mem_mergeSort.1 body)))

/-- If the rules say the same about related bodies, the diagnostics of the programs are the same,
and no report tells them apart. -/
theorem report (related : p.Related G q)
    (each : ∀ r ∈ p.routines, ∀ g g', r.graph = some g → G r.symbol g g' →
      ∀ c : Context, c.routine g' = c.routine g)
    (valid : p.Valid) (yields : p.Yields s) (others : q.Yields t) :
    t.all = s.all ∧ ∀ o, t.report o = s.report o := by
  have routine (r : Routine) (member : r ∈ p.routines) (r' : Routine) (pair : r.Related G r') :
      r'.diagnostics p.symbols = r.diagnostics p.symbols := by
    apply pair.diagnostics (D := fun l l' => l' = l) rfl
    intro g g' symbol body graphs _
    rw [each r member g g' body graphs]
  have batches : q.routines.map (·.batch q.symbols) = p.routines.map (·.batch p.symbols) := by
    apply related.routines.attach.map_eq
    rintro r r' ⟨member, pair⟩
    rw [Routine.batch, Routine.batch, pair.symbol, related.symbols, routine r member r' pair]
  exact yields.report_eq_of_batches valid (.of_eq batches) others

end Program.Related

end FlowLint
