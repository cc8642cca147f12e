import FlowLint.Analysis
import FlowLint.Proofs.Diagnostic.Sink
import FlowLint.Proofs.Program.Defect

/-!
Analysis by a pool of workers. They take routines and publish what they found in whatever order;
in the end the sink holds what each routine yields when it is analysed alone.
-/

namespace FlowLint

def Routine.batch (symbols : SymbolTable) (r : Routine) : RoutineId × List Diagnostic :=
  (r.symbol, r.diagnostics symbols)

/-- The routines that nobody has taken yet, the batches that are still to be published, and the
sink that all workers share. -/
structure Pool where
  waiting : List Routine
  finished : List (RoutineId × List Diagnostic)
  sink : Sink

namespace Pool

def init (p : Program) : Pool := ⟨p.routines, [], .empty⟩

def Done (pool : Pool) : Prop := pool.waiting = [] ∧ pool.finished = []

/-- Some worker goes on: it analyses one of the routines, or publishes one of the batches. -/
inductive Step (symbols : SymbolTable) : Pool → Pool → Prop where
  | analyse {pool : Pool} {r : Routine} {rest : List Routine} :
      pool.waiting.Perm (r :: rest) →
      Step symbols pool ⟨rest, r.batch symbols :: pool.finished, pool.sink⟩
  | publish {pool : Pool} {id : RoutineId} {ds : List Diagnostic}
      {rest : List (RoutineId × List Diagnostic)} :
      pool.finished.Perm ((id, ds) :: rest) →
      Step symbols pool ⟨pool.waiting, rest, pool.sink.publish id ds⟩

/-- The sink holds what was published so far, and each routine either published its batch, or left
it to be published, or waits. -/
def Accounts (symbols : SymbolTable) (routines : List Routine) (pool : Pool) : Prop :=
  ∃ history, pool.sink = Sink.empty.publishAll history ∧
    (history ++ (pool.finished ++ pool.waiting.map (·.batch symbols))).Perm
      (routines.map (·.batch symbols))

variable {symbols : SymbolTable} {routines : List Routine} {first second last : Pool}

/-- No step loses a batch or makes one up. -/
theorem step_accounts (step : Step symbols first second)
    (accounts : first.Accounts symbols routines) : second.Accounts symbols routines := by
  -- a batch moves from the routines to the finished ones, or from there to the history
  obtain ⟨history, published, perm⟩ := accounts
  cases step with
  | @analyse r rest taken =>
    refine ⟨history, published, List.Perm.trans (.append_left _ ?_) perm⟩
    calc
      _ = r.batch symbols :: (first.finished ++ rest.map (·.batch symbols)) := rfl
      List.Perm _ (first.finished ++ (r :: rest).map (·.batch symbols)) := List.perm_middle.symm
      List.Perm _ _ := (taken.symm.map _).append_left _
  | @publish id ds rest taken =>
    refine ⟨history ++ [(id, ds)], ?_, List.Perm.trans ?_ perm⟩
    · rw [published, Sink.publishAll_concat]
    · rw [List.append_assoc]
      exact (taken.symm.append_right _).append_left _

theorem steps_accounts (steps : Relation.ReflTransGen (Step symbols) first last)
    (accounts : first.Accounts symbols routines) : last.Accounts symbols routines := by
  induction steps with
  | refl => exact accounts
  | tail _ step ih => exact step_accounts step ih

theorem steps_in_order (symbols : SymbolTable) (routines : List Routine) (s : Sink) :
    Relation.ReflTransGen (Step symbols) ⟨routines, [], s⟩
      ⟨[], [], routines.foldl (fun s r => s.publish r.symbol (r.diagnostics symbols)) s⟩ := by
  induction routines generalizing s with
  | nil => exact .refl
  | cons r rest ih =>
    have analysed : Step symbols ⟨r :: rest, [], s⟩ ⟨rest, [r.batch symbols], s⟩ :=
      .analyse (.refl _)
    have published : Step symbols ⟨rest, [r.batch symbols], s⟩
        ⟨rest, [], s.publish r.symbol (r.diagnostics symbols)⟩ := .publish (.refl _)
    exact .head analysed (.head published (ih _))

end Pool

namespace Program

/-- Workers on the program may end up with this sink. -/
def Yields (p : Program) (s : Sink) : Prop :=
  ∃ pool, Relation.ReflTransGen (Pool.Step p.symbols) (.init p) pool ∧ pool.Done ∧ pool.sink = s

def alone (p : Program) (r : Routine) : Program := ⟨p.symbols, [r]⟩

def bodies (p : Program) : List Routine :=
  (p.routines.filter fun r => r.graph.isSome).mergeSort fun a b => a.symbol ≤ b.symbol

theorem yields_analyze (p : Program) : p.Yields p.analyze :=
  ⟨_, Pool.steps_in_order p.symbols p.routines .empty, ⟨rfl, rfl⟩, rfl⟩

/-- In the end each routine has published its batch, in some order. -/
theorem Yields.history {p : Program} {s : Sink} (yields : p.Yields s) :
    ∃ history : List (RoutineId × List Diagnostic),
      history.Perm (p.routines.map (·.batch p.symbols)) ∧ s = Sink.empty.publishAll history := by
  obtain ⟨pool, steps, ⟨nobodyWaits, nothingLeft⟩, rfl⟩ := yields
  have start : (Pool.init p).Accounts p.symbols p.routines := ⟨[], rfl, .refl _⟩
  obtain ⟨history, published, perm⟩ := Pool.steps_accounts steps start
  rw [nobodyWaits, nothingLeft, List.map_nil, List.append_nil, List.append_nil] at perm
  exact ⟨history, perm, published⟩

theorem diagnostics_attributed {symbols : SymbolTable} {r : Routine} :
    ∀ d ∈ r.diagnostics symbols, d.routine = r.symbol := by
  unfold Routine.diagnostics
  intro d member
  split at member
  · obtain ⟨remark, -, rfl⟩ := List.mem_map.1 member
    rfl
  · cases member

theorem diagnostics_of_no_graph {symbols : SymbolTable} {r : Routine} (none : r.graph = none) :
    r.diagnostics symbols = [] := by
  simp [Routine.diagnostics, none]

theorem keys_nodup {p : Program} (valid : p.Valid) :
    ((p.routines.map (·.batch p.symbols)).map (·.1)).Nodup := by
  rw [List.map_map]
  exact valid.distinct

theorem Yields.forRoutine_eq {p : Program} {s : Sink} (valid : p.Valid) (yields : p.Yields s)
    {r : Routine} (member : r ∈ p.routines) :
    s.forRoutine r.symbol = r.diagnostics p.symbols := by
  obtain ⟨history, perm, rfl⟩ := yields.history
  have distinct := (perm.map (·.1)).nodup_iff.2 (keys_nodup valid)
  have published : r.batch p.symbols ∈ history := perm.mem_iff.2 (List.mem_map_of_mem member)
  exact Sink.forRoutine_publishAll_of_mem distinct published

theorem Yields.forRoutine_of_not_mem {p : Program} {s : Sink} (yields : p.Yields s)
    {id : RoutineId} (unlisted : id ∉ p.routines.map (·.symbol)) : s.forRoutine id = [] := by
  obtain ⟨history, perm, rfl⟩ := yields.history
  apply Sink.forRoutine_publishAll_of_not_mem
  rw [(perm.map (·.1)).mem_iff, List.map_map]
  exact unlisted

theorem bodies_pairwise {p : Program} (valid : p.Valid) :
    (p.bodies.map (·.symbol)).Pairwise (· < ·) := by
  have distinct : ((p.routines.filter fun r => r.graph.isSome).map Routine.symbol).Nodup :=
    valid.distinct.sublist (List.filter_sublist.map _)
  exact List.pairwise_map.2 (mergeSort_pairwise Routine.symbol distinct)

theorem mem_bodies_iff {p : Program} {r : Routine} :
    r ∈ p.bodies ↔ r ∈ p.routines ∧ r.graph.isSome := by
  rw [bodies, List.mem_mergeSort, List.mem_filter]

theorem Yields.all_eq {p : Program} {s : Sink} (valid : p.Valid) (yields : p.Yields s) :
    s.all = p.bodies.flatMap (·.diagnostics p.symbols) := by
  have silent (id : RoutineId) (unlisted : id ∉ p.bodies.map (·.symbol)) :
      s.forRoutine id = [] := by
    by_cases listed : id ∈ p.routines.map (·.symbol)
    · obtain ⟨r, member, rfl⟩ := List.mem_map.1 listed
      rw [yields.forRoutine_eq valid member]
      apply diagnostics_of_no_graph
      rw [← Option.not_isSome_iff_eq_none]
      exact fun body => unlisted (List.mem_map_of_mem (mem_bodies_iff.2 ⟨member, body⟩))
    · exact yields.forRoutine_of_not_mem listed
  rw [Sink.all_eq_flatMap (bodies_pairwise valid) silent, List.flatMap_map]
  exact List.flatMap_congr fun r body =>
    yields.forRoutine_eq valid (mem_bodies_iff.1 body).1

theorem Yields.filter_all {p : Program} {s : Sink} (yields : p.Yields s) (id : RoutineId) :
    s.all.filter (·.routine == id) = s.forRoutine id := by
  refine Sink.filter_all (fun other d member => ?_) id
  obtain ⟨history, perm, rfl⟩ := yields.history
  rw [Sink.forRoutine_publishAll] at member
  obtain ⟨batch, among, inside⟩ := List.mem_flatMap.1 member
  obtain ⟨published, same⟩ := List.mem_filter.1 among
  obtain ⟨r, -, rfl⟩ := List.mem_map.1 (perm.mem_iff.1 published)
  exact (diagnostics_attributed d inside).trans (eq_of_beq same)

theorem all_alone (p : Program) (r : Routine) :
    (p.alone r).analyze.all = r.diagnostics p.symbols := Sink.all_publish_empty _ _

/-- The diagnostics of one routine among all of them are those that it yields alone. -/
theorem Yields.filter_routine {p : Program} {s : Sink} (valid : p.Valid) (yields : p.Yields s)
    {r : Routine} (member : r ∈ p.routines) :
    s.all.filter (·.routine == r.symbol) = r.diagnostics p.symbols := by
  rw [yields.filter_all, yields.forRoutine_eq valid member]

theorem Yields.mem_all_iff {p : Program} {s : Sink} (valid : p.Valid) (yields : p.Yields s)
    {d : Diagnostic} : d ∈ s.all ↔ ∃ r ∈ p.routines, d ∈ r.diagnostics p.symbols := by
  constructor
  · intro member
    rw [yields.all_eq valid] at member
    obtain ⟨r, body, made⟩ := List.mem_flatMap.1 member
    exact ⟨r, List.mem_of_mem_filter (List.mem_mergeSort.1 body), made⟩
  · rintro ⟨r, listed, made⟩
    rw [← yields.filter_routine valid listed] at made
    exact List.mem_of_mem_filter made

theorem Yields.exists_of_routine_iff {p : Program} {s : Sink} (valid : p.Valid)
    (yields : p.Yields s) {r : Routine} (member : r ∈ p.routines) {property : Diagnostic → Prop} :
    (∃ d ∈ s.all, d.routine = r.symbol ∧ property d) ↔
      ∃ d ∈ r.diagnostics p.symbols, property d := by
  simp only [← yields.filter_routine valid member, List.mem_filter, beq_iff_eq, and_assoc]

/-- Programs whose routines publish the same batches, in whatever order, are reported on alike. -/
theorem Yields.report_eq_of_batches {p q : Program} {s t : Sink} (valid : p.Valid)
    (perm : (q.routines.map (·.batch q.symbols)).Perm (p.routines.map (·.batch p.symbols)))
    (yields : p.Yields s) (others : q.Yields t) :
    t.all = s.all ∧ ∀ o, t.report o = s.report o := by
  obtain ⟨history, ours, rfl⟩ := yields.history
  obtain ⟨other, theirs, rfl⟩ := others.history
  have distinct := (ours.map (·.1)).nodup_iff.2 (keys_nodup valid)
  have all := Sink.all_congr
    (Sink.forRoutine_publishAll_of_perm distinct (theirs.trans (perm.trans ours.symm)))
  exact ⟨all, Sink.report_congr all⟩

theorem Yields.report_eq {p q : Program} {s t : Sink} (valid : p.Valid)
    (symbols : q.symbols = p.symbols) (perm : q.routines.Perm p.routines) (yields : p.Yields s)
    (others : q.Yields t) : t.all = s.all ∧ ∀ o, t.report o = s.report o := by
  refine yields.report_eq_of_batches valid ?_ others
  rw [symbols]
  exact perm.map _

/-- Whatever the workers do in which order, all diagnostics of a valid program are those that each
body yields alone, by ascending routine. Those of one routine do not depend on which others are
listed, and no report on how they are listed. -/
theorem yields_exact {p : Program} (valid : p.defect? = none) :
    p.Yields p.analyze ∧
      (∀ r, (p.alone r).analyze.all = r.diagnostics p.symbols) ∧
      ∀ s, p.Yields s →
        s.all = (p.bodies.flatMap fun r => (p.alone r).analyze.all) ∧
          (∀ r ∈ p.routines, s.all.filter (·.routine == r.symbol) = (p.alone r).analyze.all) ∧
          (∀ listed : List (RoutineId × List Diagnostic), listed.Perm s.entries →
            (listed.Pairwise fun a b => a.1 ≤ b.1) → listed.flatMap (·.2) = s.all) ∧
          (∀ (q : Program) (t : Sink), q.symbols = p.symbols → q.defect? = none → q.Yields t →
            ∀ r ∈ p.routines, r ∈ q.routines →
              t.all.filter (·.routine == r.symbol) = s.all.filter (·.routine == r.symbol)) ∧
          ∀ (q : Program) (t : Sink), q.symbols = p.symbols → q.routines.Perm p.routines →
            q.Yields t → t.all = s.all ∧ ∀ o, t.report o = s.report o := by
  rw [defect?_eq_none_iff] at valid
  refine ⟨p.yields_analyze, p.all_alone, fun s yields => ?_⟩
  simp only [all_alone, yields.filter_all]
  refine ⟨yields.all_eq valid, fun r member => yields.forRoutine_eq valid member,
    fun _ perm sorted => Sink.flatMap_of_perm_entries perm sorted, ?_,
    fun q t symbols perm others => yields.report_eq valid symbols perm others⟩
  intro q t symbols alsoValid others r member alsoMember
  rw [others.filter_all, others.forRoutine_eq (defect?_eq_none_iff.1 alsoValid) alsoMember,
    yields.forRoutine_eq valid member, symbols]

def declaring (clause : Span) : Graph :=
  { start := 0
    exit := 1
    blocks := [⟨0, .start, [⟨.declare clause, none⟩], some (.jump 1)⟩, ⟨1, .exit, [], none⟩]
    labels := []
    unreachable := [] }

theorem declaring_sound (clause : Span) : (declaring clause).Sound where
  sorted := by simp [Ascending, declaring]
  exist := by simp [Graph.references, declaring, Edge.targets]

def threeRoutines : Program :=
  let script : RoutineSymbol := ⟨"main", .globalCode, none, [], false, false, none, none, ⟨0, 0⟩⟩
  let method : RoutineSymbol := ⟨"run", .method, none, [], true, false, none, none, ⟨4, 7⟩⟩
  { symbols := ⟨[], [script, method, script]⟩
    routines :=
      [⟨2, some (declaring ⟨3, 9⟩), .empty⟩, ⟨1, none, .empty⟩,
       ⟨0, some (declaring ⟨5, 8⟩), .empty⟩] }

theorem threeRoutines_valid : threeRoutines.Valid where
  declared := by simp [threeRoutines, SymbolTable.routine?]
  distinct := by decide
  sound := by simp [threeRoutines, declaring_sound]

theorem threeRoutines_reversed :
    threeRoutines.defect? = none ∧
      (Program.mk threeRoutines.symbols threeRoutines.routines.reverse).analyze.all =
        threeRoutines.analyze.all := by
  have valid := defect?_eq_none_iff.2 threeRoutines_valid
  obtain ⟨yields, -, settled⟩ := yields_exact valid
  obtain ⟨-, -, -, -, reordered⟩ := settled _ yields
  have reversed := reordered ⟨threeRoutines.symbols, threeRoutines.routines.reverse⟩ _ rfl
    (List.reverse_perm _) (yields_analyze _)
  exact ⟨valid, reversed.1⟩

end Program

end FlowLint
