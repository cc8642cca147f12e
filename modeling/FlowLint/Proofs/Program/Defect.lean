import FlowLint.Proofs.Graph.Plan

/-!
Programs without a defect: every routine is declared, none is listed twice, and the search can rely
on every graph. Of a program with defects, the first one counts: that of the first routine that is
not fit, and for this routine the first condition that it breaks.
-/

namespace FlowLint

/-- Control may take the edge to the block. A construct leads to its body, to each of its handlers,
to its final block and to the block that follows it. -/
inductive Edge.LeadsTo : Edge → Nat → Prop where
  | jump {id : Nat} : LeadsTo (.jump id) id
  | loopBack {id : Nat} : LeadsTo (.loopBack id) id
  | whenTrue {condition : Expr} {id other : Nat} : LeadsTo (.branch condition id other) id
  | whenFalse {condition : Expr} {id other : Nat} : LeadsTo (.branch condition other id) id
  | case {value : Expr} {cases : List SwitchCase} {c : SwitchCase} :
      c ∈ cases → LeadsTo (.select value cases) c.target
  | foreach {collection : Expr} {id : Nat} : LeadsTo (.foreach collection id) id
  | element {key : Option Expr} {value : Expr} {id next : Nat} :
      LeadsTo (.foreachNext key value id next) id
  | exhausted {key : Option Expr} {value : Expr} {body id : Nat} :
      LeadsTo (.foreachNext key value body id) id
  | body {t : TryConstruct} : LeadsTo (.guarded t) t.body
  | handler {t : TryConstruct} {id : Nat} : id ∈ t.handlers → LeadsTo (.guarded t) id
  | final {t : TryConstruct} {id : Nat} : t.final = some id → LeadsTo (.guarded t) id
  | next {t : TryConstruct} : LeadsTo (.guarded t) t.next

theorem Edge.mem_targets_iff {e : Edge} {id : Nat} : id ∈ e.targets ↔ e.LeadsTo id := by
  constructor
  · intro member
    cases e with
    | jump target =>
      rw [List.mem_singleton.1 member]
      exact .jump
    | loopBack target =>
      rw [List.mem_singleton.1 member]
      exact .loopBack
    | branch condition whenTrue whenFalse =>
      rcases List.mem_pair.1 member with rfl | rfl
      · exact .whenTrue
      · exact .whenFalse
    | select value cases =>
      obtain ⟨c, listed, rfl⟩ := List.mem_map.1 member
      exact .case listed
    | foreach collection target =>
      rw [List.mem_singleton.1 member]
      exact .foreach
    | foreachNext key value body next =>
      rcases List.mem_pair.1 member with rfl | rfl
      · exact .element
      · exact .exhausted
    | guarded t =>
      simp only [targets, List.cons_append, List.mem_cons, List.mem_append, Option.mem_toList,
        List.not_mem_nil, or_false] at member
      rcases member with rfl | (handler | final) | rfl
      · exact .body
      · exact .handler handler
      · exact .final final
      · exact .next
  · intro leads
    cases leads with
    | case listed => exact List.mem_map_of_mem listed
    | handler listed => simp [targets, listed]
    | final present => simp [targets, present]
    | _ => simp [targets]

namespace Graph

variable {g : Graph}

/-- Some block has the ordinal. -/
def HasBlock (g : Graph) (id : Nat) : Prop := ∃ b ∈ g.blocks, b.ordinal = id

theorem mem_references_iff {id : Nat} :
    id ∈ g.references ↔ id = g.start ∨ ∃ b ∈ g.blocks, ∃ e, b.edge = some e ∧ e.LeadsTo id := by
  simp only [references, List.mem_cons, List.mem_flatMap, Option.mem_toList, Edge.mem_targets_iff]

theorem sound_iff :
    g.Sound ↔ Ascending g.blocks ∧ g.HasBlock g.start ∧
      ∀ b ∈ g.blocks, ∀ e, b.edge = some e → ∀ id, e.LeadsTo id → g.HasBlock id := by
  constructor
  · intro sound
    refine ⟨sound.sorted, sound.exist _ (mem_references_iff.2 (.inl rfl)), ?_⟩
    intro b listed e leaves id leads
    exact sound.exist id (mem_references_iff.2 (.inr ⟨b, listed, e, leaves, leads⟩))
  · intro ⟨sorted, start, targets⟩
    refine ⟨sorted, fun id referred => ?_⟩
    rcases mem_references_iff.1 referred with rfl | ⟨b, listed, e, leaves, leads⟩
    · exact start
    · exact targets b listed e leaves id leads

end Graph

theorem Graph.isNone_block?_iff {g : Graph} (sorted : Ascending g.blocks) {id : Nat} :
    (g.block? id).isNone = true ↔ ¬ g.HasBlock id := by
  have found : (∃ b, g.block? id = some b) ↔ g.HasBlock id :=
    exists_congr fun _ => block?_eq_some_iff sorted
  rw [Option.isNone_iff_eq_none, ← found, ← Option.ne_none_iff_exists', not_ne_iff]

theorem Graph.missingBlock?_eq_none_iff {g : Graph} (sorted : Ascending g.blocks) :
    g.missingBlock? = none ↔ ∀ id ∈ g.references, ∃ b ∈ g.blocks, b.ordinal = id := by
  rw [missingBlock?, List.find?_eq_none]
  refine forall₂_congr fun id _ => ?_
  rw [isNone_block?_iff sorted, not_not]
  rfl

theorem Routine.graphDefect?_eq_none_iff {r : Routine} :
    r.graphDefect? = none ↔ ∀ g, r.graph = some g → g.Sound := by
  cases present : r.graph with
  | none => simp [graphDefect?, present]
  | some g =>
    simp only [graphDefect?, present, Option.bind_some, Option.some.injEq, forall_eq']
    by_cases sorted : g.isSorted = true
    · have ascending := Graph.isSorted_iff.1 sorted
      rw [if_pos sorted, Option.map_eq_none_iff, Graph.missingBlock?_eq_none_iff ascending]
      exact ⟨fun exist => ⟨ascending, exist⟩, Graph.Sound.exist⟩
    · rw [if_neg sorted]
      constructor
      · intro never
        cases never
      · intro sound
        exact absurd (Graph.isSorted_iff.2 sound.sorted) sorted

theorem Routine.defect?_eq_none_iff {symbols : SymbolTable} {earlier : List RoutineId}
    {r : Routine} :
    r.defect? symbols earlier = none ↔
      (∃ symbol, symbols.routine? r.symbol = some symbol) ∧ r.symbol ∉ earlier ∧
        ∀ g, r.graph = some g → g.Sound := by
  rw [← graphDefect?_eq_none_iff, defect?]
  cases declared : symbols.routine? r.symbol with
  | none => simp
  | some symbol => by_cases repeated : r.symbol ∈ earlier <;> simp [repeated]

theorem firstDefect?_eq_none_iff {symbols : SymbolTable} {earlier : List RoutineId}
    {routines : List Routine} :
    firstDefect? symbols earlier routines = none ↔
      (∀ r ∈ routines, (∃ symbol, symbols.routine? r.symbol = some symbol) ∧
        ∀ g, r.graph = some g → g.Sound) ∧
      (∀ r ∈ routines, r.symbol ∉ earlier) ∧ (routines.map Routine.symbol).Nodup := by
  induction routines generalizing earlier with
  | nil => simp [firstDefect?]
  | cons r rest ih =>
    rw [firstDefect?, Option.or_eq_none_iff, Routine.defect?_eq_none_iff, ih]
    simp only [List.mem_cons, forall_eq_or_imp, not_or, List.map_cons, List.nodup_cons,
      List.mem_map, not_exists, not_and, forall_and]
    constructor
    · intro ⟨⟨declared, new, sound⟩, ⟨allDeclared, allSound⟩, ⟨different, fresh⟩, distinct⟩
      exact ⟨⟨⟨declared, allDeclared⟩, sound, allSound⟩, ⟨new, fresh⟩, different, distinct⟩
    · intro ⟨⟨⟨declared, allDeclared⟩, sound, allSound⟩, ⟨new, fresh⟩, different, distinct⟩
      exact ⟨⟨declared, new, sound⟩, ⟨allDeclared, allSound⟩, ⟨different, fresh⟩, distinct⟩

namespace Program

/-- What the analysis relies on. -/
structure Valid (p : Program) : Prop where
  declared : ∀ r ∈ p.routines, ∃ symbol, p.symbols.routine? r.symbol = some symbol
  distinct : (p.routines.map Routine.symbol).Nodup
  sound : ∀ r ∈ p.routines, ∀ g, r.graph = some g → g.Sound

theorem defect?_eq_none_iff {p : Program} : p.defect? = none ↔ p.Valid := by
  rw [defect?, firstDefect?_eq_none_iff]
  constructor
  · rintro ⟨fit, -, distinct⟩
    exact ⟨fun r member => (fit r member).1, distinct, fun r member => (fit r member).2⟩
  · intro valid
    exact ⟨fun r member => ⟨valid.declared r member, valid.sound r member⟩,
      fun _ _ => List.not_mem_nil, valid.distinct⟩

end Program

def Graph.FirstMissing (g : Graph) (id : Nat) : Prop :=
  ∃ known later, g.references = known ++ id :: later ∧ (∀ other ∈ known, g.HasBlock other) ∧
    ¬ g.HasBlock id

theorem Graph.missingBlock?_eq_some_iff {g : Graph} (sorted : Ascending g.blocks) {id : Nat} :
    g.missingBlock? = some id ↔ g.FirstMissing id := by
  have held (other : Nat) : (!(g.block? other).isNone) = true ↔ g.HasBlock other := by
    rw [Bool.not_eq_true', ← Bool.not_eq_true, isNone_block?_iff sorted, not_not]
  rw [missingBlock?, List.find?_eq_some_iff_append, isNone_block?_iff sorted]
  simp only [held]
  constructor
  · intro ⟨missing, known, later, split, exist⟩
    exact ⟨known, later, split, exist, missing⟩
  · intro ⟨known, later, split, exist, missing⟩
    exact ⟨missing, known, later, split, exist⟩

namespace Routine

/-- The first condition that a routine breaks which is listed after the given ones. Each of them
counts only if those before it hold. -/
inductive Breaks (symbols : SymbolTable) (earlier : List RoutineId) (r : Routine) :
    Defect → Prop where
  | unknown : symbols.routines.length ≤ r.symbol →
      Breaks symbols earlier r (.unknownRoutine r.symbol)
  | duplicate : r.symbol < symbols.routines.length → r.symbol ∈ earlier →
      Breaks symbols earlier r (.duplicateRoutine r.symbol)
  | unsorted {g : Graph} : r.symbol < symbols.routines.length → r.symbol ∉ earlier →
      r.graph = some g → ¬ Ascending g.blocks →
      Breaks symbols earlier r (.unsortedBlocks r.symbol)
  | missing {g : Graph} {id : Nat} : r.symbol < symbols.routines.length → r.symbol ∉ earlier →
      r.graph = some g → Ascending g.blocks → g.FirstMissing id →
      Breaks symbols earlier r (.missingBlock r.symbol id)

variable {symbols : SymbolTable} {earlier : List RoutineId} {r : Routine} {d : Defect}

theorem isNone_routine?_iff {id : RoutineId} :
    (symbols.routine? id).isNone = true ↔ symbols.routines.length ≤ id := by
  rw [SymbolTable.routine?, Option.isNone_iff_eq_none, List.getElem?_eq_none_iff]

theorem defect?_eq_some_iff : r.defect? symbols earlier = some d ↔ r.Breaks symbols earlier d := by
  constructor
  · intro broken
    rw [defect?] at broken
    by_cases unknown : (symbols.routine? r.symbol).isNone = true
    · rw [if_pos unknown] at broken
      obtain rfl := Option.some.inj broken
      exact .unknown (isNone_routine?_iff.1 unknown)
    rw [if_neg unknown] at broken
    rw [isNone_routine?_iff, Nat.not_le] at unknown
    by_cases repeated : r.symbol ∈ earlier
    · rw [if_pos repeated] at broken
      obtain rfl := Option.some.inj broken
      exact .duplicate unknown repeated
    rw [if_neg repeated] at broken
    obtain ⟨g, body, broken⟩ := Option.bind_eq_some_iff.1 broken
    by_cases sorted : g.isSorted = true
    · rw [if_pos sorted] at broken
      rw [Graph.isSorted_iff] at sorted
      obtain ⟨id, missing, rfl⟩ := Option.map_eq_some_iff.1 broken
      exact .missing unknown repeated body sorted ((g.missingBlock?_eq_some_iff sorted).1 missing)
    · rw [if_neg sorted] at broken
      rw [Graph.isSorted_iff] at sorted
      obtain rfl := Option.some.inj broken
      exact .unsorted unknown repeated body sorted
  · intro breaks
    have listed (known : r.symbol < symbols.routines.length) :
        ¬ (symbols.routine? r.symbol).isNone = true := by
      rw [isNone_routine?_iff]
      exact Nat.not_le.2 known
    cases breaks with
    | unknown beyond => rw [defect?, if_pos (isNone_routine?_iff.2 beyond)]
    | duplicate known repeated => rw [defect?, if_neg (listed known), if_pos repeated]
    | unsorted known new body unsorted =>
      rw [defect?, if_neg (listed known), if_neg new, graphDefect?, body, Option.bind_some,
        if_neg (mt Graph.isSorted_iff.1 unsorted)]
    | missing known new body sorted missing =>
      rw [defect?, if_neg (listed known), if_neg new, graphDefect?, body, Option.bind_some,
        if_pos (Graph.isSorted_iff.2 sorted), (Graph.missingBlock?_eq_some_iff sorted).2 missing,
        Option.map_some]

theorem defect?_congr {others : List RoutineId} (same : ∀ id, id ∈ earlier ↔ id ∈ others) :
    r.defect? symbols earlier = r.defect? symbols others := by
  simp only [defect?, same]

end Routine

/-- The first defect is that of the first routine which has one. -/
theorem firstDefect?_eq_some_iff {symbols : SymbolTable} {earlier : List RoutineId}
    {routines : List Routine} {d : Defect} :
    firstDefect? symbols earlier routines = some d ↔
      ∃ before r after, routines = before ++ r :: after ∧
        firstDefect? symbols earlier before = none ∧
        r.defect? symbols (before.map Routine.symbol ++ earlier) = some d := by
  induction routines generalizing earlier with
  | nil => simp [firstDefect?]
  | cons r rest ih =>
    -- the induction puts the routine in front of the earlier ones, the statement behind the others
    have moved (before : List Routine) (s : Routine) :
        s.defect? symbols (before.map Routine.symbol ++ r.symbol :: earlier) =
          s.defect? symbols ((r :: before).map Routine.symbol ++ earlier) := by
      apply Routine.defect?_congr
      intro id
      rw [List.map_cons, List.cons_append]
      exact List.perm_middle.mem_iff
    rw [firstDefect?, Option.or_eq_some_iff, ih]
    constructor
    · rintro (here | ⟨fit, before, s, after, split, clean, broken⟩)
      · exact ⟨[], r, rest, rfl, rfl, here⟩
      · refine ⟨r :: before, s, after, congrArg (r :: ·) split, ?_, ?_⟩
        · rw [firstDefect?, fit, clean, Option.or_none]
        · rw [← moved, broken]
    · intro ⟨before, s, after, split, clean, broken⟩
      cases before with
      | nil =>
        obtain ⟨rfl, rfl⟩ := List.cons.inj split
        exact .inl broken
      | cons first before =>
        obtain ⟨rfl, rfl⟩ := List.cons.inj split
        obtain ⟨fit, clean⟩ := Option.or_eq_none_iff.1 clean
        refine .inr ⟨fit, before, s, after, rfl, clean, ?_⟩
        rw [moved, broken]

namespace Program

/-- A program is without defect if every routine is declared, none is listed twice, and every graph
has its blocks in ascending order, among them its start and all that its edges lead to. Otherwise
the defect is the first condition broken by the first routine that breaks one: those listed before
it are without defect. -/
theorem defect?_exact (p : Program) :
    (p.defect? = none ↔
      (∀ r ∈ p.routines, r.symbol < p.symbols.routines.length) ∧
        (p.routines.map Routine.symbol).Nodup ∧
        ∀ r ∈ p.routines, ∀ g, r.graph = some g →
          Ascending g.blocks ∧ g.HasBlock g.start ∧
            ∀ b ∈ g.blocks, ∀ e, b.edge = some e → ∀ id, e.LeadsTo id → g.HasBlock id) ∧
      ∀ d, p.defect? = some d ↔
        ∃ before r after, p.routines = before ++ r :: after ∧
          (⟨p.symbols, before⟩ : Program).defect? = none ∧
          r.Breaks p.symbols (before.map Routine.symbol) d := by
  have declared (r : Routine) :
      (∃ symbol, p.symbols.routine? r.symbol = some symbol) ↔
        r.symbol < p.symbols.routines.length := by
    rw [← Option.ne_none_iff_exists', ne_eq, ← Option.isNone_iff_eq_none,
      Routine.isNone_routine?_iff, Nat.not_le]
  constructor
  · rw [defect?_eq_none_iff]
    constructor
    · intro valid
      refine ⟨fun r listed => (declared r).1 (valid.declared r listed), valid.distinct, ?_⟩
      intro r listed g body
      exact Graph.sound_iff.1 (valid.sound r listed g body)
    · intro ⟨known, distinct, graphs⟩
      refine ⟨fun r listed => (declared r).2 (known r listed), distinct, ?_⟩
      intro r listed g body
      exact Graph.sound_iff.2 (graphs r listed g body)
  · intro d
    rw [defect?, firstDefect?_eq_some_iff]
    simp only [List.append_nil, Routine.defect?_eq_some_iff]
    rfl

end Program

end FlowLint
