import FlowLint.Proofs.Graph.Reached
import FlowLint.Proofs.Rule.Code
import FlowLint.Proofs.Walk

/-!
Where remarks come from. Each remark is made when the visit enters or leaves some node; those with
codes that neither expressions nor judgements have are made at statements, and a walk lists them in
the order of the statements.
-/

namespace FlowLint

namespace Node

def isBlock : Node → Bool
  | block _ => true
  | _ => false

theorem self_mem_entered (n : Node) : n ∈ n.entered := by
  rw [entered_eq]
  exact List.mem_cons_self

theorem entered_of_child {n c m : Node} (child : c ∈ n.children) (inside : m ∈ c.entered) :
    m ∈ n.entered := by
  rw [entered_eq]
  exact List.mem_cons_of_mem n (List.mem_flatMap.2 ⟨c, child, inside⟩)

theorem child_mem_entered {n m c : Node} (inside : m ∈ n.entered) (child : c ∈ m.children) :
    c ∈ n.entered := by
  induction n using Node.induction with
  | step n ih =>
    rw [entered_eq] at inside
    rcases List.mem_cons.1 inside with rfl | deeper
    · exact entered_of_child child c.self_mem_entered
    · obtain ⟨k, among, within⟩ := List.mem_flatMap.1 deeper
      exact entered_of_child among (ih k among within)

/-- The other node is this one or inside it, at whatever depth. -/
def Contains : Node → Node → Prop := Relation.ReflTransGen fun n m => m ∈ n.children

theorem mem_entered_iff {n m : Node} : m ∈ n.entered ↔ n.Contains m := by
  constructor
  · intro inside
    induction n using Node.induction with
    | step n ih =>
      rw [entered_eq] at inside
      rcases List.mem_cons.1 inside with rfl | deeper
      · exact .refl
      · obtain ⟨c, child, within⟩ := List.mem_flatMap.1 deeper
        exact .head child (ih c child within)
  · intro contained
    induction contained with
    | refl => exact n.self_mem_entered
    | tail _ child ih => exact child_mem_entered ih child

theorem isPart_of_mem_children {n m : Node} (inner : n.isBlock = false)
    (child : m ∈ n.children) : ∃ p, m = ofPart p := by
  cases n with
  | block b => cases inner
  | header h =>
    rcases List.mem_append.1 child with child | child
    · obtain ⟨t, -, rfl⟩ := List.mem_map.1 child
      exact ⟨.type t, rfl⟩
    · obtain ⟨e, -, rfl⟩ := List.mem_map.1 child
      exact ⟨.expr e, rfl⟩
  | statement s =>
    obtain ⟨e, -, rfl⟩ := List.mem_map.1 child
    exact ⟨.expr e, rfl⟩
  | edge edge =>
    obtain ⟨e, -, rfl⟩ := List.mem_map.1 child
    exact ⟨.expr e, rfl⟩
  | expr e =>
    obtain ⟨p, -, rfl⟩ := List.mem_map.1 child
    exact ⟨p, rfl⟩
  | type t =>
    obtain ⟨p, -, rfl⟩ := List.mem_map.1 child
    exact ⟨p, rfl⟩

theorem isPart_of_mem_entered {n m : Node} (inner : n.isBlock = false) (inside : m ∈ n.entered) :
    m = n ∨ ∃ p, m = ofPart p := by
  induction n using Node.induction with
  | step n ih =>
    rw [entered_eq] at inside
    rcases List.mem_cons.1 inside with same | deeper
    · exact .inl same
    · obtain ⟨c, child, within⟩ := List.mem_flatMap.1 deeper
      obtain ⟨p, rfl⟩ := isPart_of_mem_children inner child
      have part : (ofPart p).isBlock = false := by cases p <;> rfl
      rcases ih _ child part within with rfl | found
      · exact .inr ⟨p, rfl⟩
      · exact .inr found

end Node

namespace Graph

variable {g : Graph}

theorem child_mem_entered {n c : Node} (inside : n ∈ g.entered) (child : c ∈ n.children) :
    c ∈ g.entered := by
  obtain ⟨b, reached, within⟩ := List.mem_flatMap.1 inside
  exact List.mem_flatMap.2 ⟨b, reached, Node.child_mem_entered within child⟩

theorem statement_mem_entered {b : Block} {s : Statement} (reached : b ∈ g.reachableBlocks)
    (member : s ∈ b.statements) : .statement s ∈ g.entered := by
  have block : .block b ∈ g.entered :=
    List.mem_flatMap.2 ⟨b, reached, Node.self_mem_entered _⟩
  apply child_mem_entered block
  exact List.mem_append_left _ (List.mem_append_right _ (List.mem_map.2 ⟨s, member, rfl⟩))

theorem expr_mem_entered {b : Block} {s : Statement} {e : Expr} (sorted : Ascending g.blocks)
    (listed : b ∈ g.blocks) (begins : b.ordinal = g.start) (member : s ∈ b.statements)
    (part : e ∈ s.parts) : .expr e ∈ g.entered := by
  have reached : g.Reachable b.ordinal := by
    rw [begins]
    exact .refl
  have block : b ∈ g.reachableBlocks := (mem_reachableBlocks_iff sorted).2 ⟨listed, reached⟩
  exact child_mem_entered (statement_mem_entered block member) (List.mem_map_of_mem part)

end Graph

namespace Context

variable (c : Context) (around : Surroundings) {codes : List String}

theorem mem_remarks_iff {n : Node} {r : Remark} :
    r ∈ c.remarks around n ↔ ∃ m ∈ n.entered, r ∈ c.enter around m ∨ r ∈ c.leave m := by
  induction n using Node.induction with
  | step n ih =>
    rw [remarks_eq, Node.entered_eq]
    simp only [List.mem_append, List.mem_flatMap, List.mem_cons, exists_eq_or_imp]
    constructor
    · rintro ((entering | ⟨child, among, inside⟩) | leaving)
      · exact .inl (.inl entering)
      · obtain ⟨m, within, here⟩ := (ih child among).1 inside
        exact .inr ⟨m, ⟨child, among, within⟩, here⟩
      · exact .inl (.inr leaving)
    · rintro ((entering | leaving) | ⟨m, ⟨child, among, within⟩, here⟩)
      · exact .inl (.inl entering)
      · exact .inr leaving
      · exact .inl (.inr ⟨child, among, (ih child among).2 ⟨m, within, here⟩⟩)

theorem enter_within {n : Node} (base : expressionCodes ⊆ codes)
    (judged : ∀ value j, n.Judges value j → Within codes (c.judge value j))
    (stated : ∀ s, n = .statement s → Within codes (c.statement around s)) :
    Within codes (c.enter around n) := by
  cases n with
  | header h => exact Within.flatMap fun t _ => primitiveMisuse_within t (base (by decide))
  | statement s => exact stated s rfl
  | expr e => exact c.enterExpr_within base judged
  | type t => exact c.reference_within t (List.Subset.trans (by decide) base)
  | _ => exact Within.nil

theorem leave_within {n : Node} (known : leaveCodes ⊆ codes)
    (judged : ∀ value j, n.Judges value j → Within codes (c.judge value j)) :
    Within codes (c.leave n) := by
  unfold leave
  split
  · exact c.leaveExpr_within known judged
  · exact judged _ .iterated ⟨by simp [Node.children, Edge.parts], by simp⟩
  · exact Within.nil

theorem remarks_within {n : Node} (base : expressionCodes ⊆ codes)
    (judged : ∀ m ∈ n.entered, ∀ value j, m.Judges value j → Within codes (c.judge value j))
    (stated : ∀ s, .statement s ∈ n.entered → Within codes (c.statement around s)) :
    Within codes (c.remarks around n) := by
  intro r member
  obtain ⟨m, inside, here⟩ := (c.mem_remarks_iff around).1 member
  rcases here with entering | leaving
  · exact c.enter_within around base (judged m inside) (fun s same => stated s (same ▸ inside)) r
      entering
  · exact c.leave_within (List.Subset.trans (by decide) base) (judged m inside) r leaving

/-- What is said at a node that the walk enters is said about the routine. -/
theorem mem_routine_of_node {g : Graph} {n : Node} {r : Remark} (inside : n ∈ g.entered)
    (here : (∀ around, r ∈ c.enter around n) ∨ r ∈ c.leave n) : r ∈ c.routine g := by
  obtain ⟨b, reached, within⟩ := List.mem_flatMap.1 inside
  have walked : r ∈ (c.walk g).found := by
    rw [walk_found]
    refine List.mem_flatMap.2 ⟨b, reached, (c.mem_remarks_iff _).2 ⟨n, within, ?_⟩⟩
    exact here.imp_left fun entering => entering _
  exact List.mem_append_left _ (List.mem_append_left _ (List.mem_append_left _ walked))

theorem walk_within {g : Graph} (base : expressionCodes ⊆ codes)
    (stated : statementCodes ⊆ codes)
    (judged : ∀ m ∈ g.entered, ∀ value j, m.Judges value j → Within codes (c.judge value j)) :
    Within codes (c.walk g).found := by
  rw [walk_found]
  refine Within.flatMap fun b reached => c.remarks_within _ base (fun m inside => ?_)
    fun s _ => c.statement_within _ s stated
  exact judged m (List.mem_flatMap.2 ⟨b, reached, inside⟩)

theorem walk_not_routine {g : Graph} :
    ∀ r ∈ (c.walk g).found, r.finding.code ∉ routineCodes := by
  let codes := expressionCodes ++ statementCodes ++ judgementCodes
  have apart : ∀ code ∈ codes, code ∉ routineCodes := by decide
  have walked : Within codes (c.walk g).found :=
    c.walk_within (by decide) (by decide) fun _ _ _ j _ =>
      Within.judge (List.mem_append_right _ j.code_mem)
  exact fun r member => apart _ (walked r member)

variable (codes) in
theorem routine_within {g : Graph} (base : expressionCodes ⊆ codes)
    (stated : statementCodes ⊆ codes) (whole : routineCodes ⊆ codes)
    (judged : ∀ m ∈ g.entered, ∀ value j, m.Judges value j → Within codes (c.judge value j)) :
    Within codes (c.routine g) := by
  have walked := c.walk_within base stated judged
  have parent := c.parentConstructor_within (c.walk g).callsParent (whole (by decide))
  have labelled := labels_within g.labels (List.Subset.trans (by decide) whole)
  exact ((walked.append parent).append labelled).append
    (unreachableCode_within g (whole (by decide)))

section Reading

variable {β : Type} {read : List Remark → List β} {told : Node → List β}

theorem read_flatMap {α : Type} (nothing : read [] = [])
    (append : ∀ first second, read (first ++ second) = read first ++ read second)
    (f : α → List Remark) (l : List α) : read (l.flatMap f) = l.flatMap fun a => read (f a) := by
  induction l with
  | nil => exact nothing
  | cons a rest ih => rw [List.flatMap_cons, List.flatMap_cons, append, ih]

/-- What is read off each remark by itself, but off none that is made when a node is left, comes in
the order in which the nodes are entered. -/
theorem read_remarks (nothing : read [] = [])
    (append : ∀ first second, read (first ++ second) = read first ++ read second)
    (entering : ∀ m, read (c.enter around m) = told m) (leaving : ∀ m, read (c.leave m) = [])
    (n : Node) : read (c.remarks around n) = n.entered.flatMap told := by
  induction n using Node.induction with
  | step n ih =>
    rw [remarks_eq, append, append, entering, leaving, read_flatMap nothing append,
      List.append_nil, Node.entered_eq, List.flatMap_cons, List.flatMap_assoc]
    exact congrArg (told n ++ ·) (List.flatMap_congr ih)

theorem read_routine {g : Graph} (nothing : read [] = [])
    (append : ∀ first second, read (first ++ second) = read first ++ read second)
    (entering : ∀ around m, read (c.enter around m) = told m)
    (leaving : ∀ m, read (c.leave m) = [])
    (silent : ∀ rs, Within routineCodes rs → read rs = []) :
    read (c.routine g) = g.entered.flatMap told := by
  have parent := silent _ (c.parentConstructor_within (c.walk g).callsParent (by decide))
  have labelled := silent _ (labels_within g.labels (by decide))
  have dead := silent _ (unreachableCode_within g (by decide))
  rw [routine, append, append, append, parent, labelled, dead, List.append_nil, List.append_nil,
    List.append_nil, walk_found, read_flatMap nothing append, Graph.entered, List.flatMap_assoc]
  exact List.flatMap_congr fun b _ =>
    c.read_remarks _ nothing append (entering _) leaving (.block b)

end Reading

section Statements

variable {q : Remark → Bool}

/-- Apart from statements and blocks, no node has remarks of foreign codes. -/
theorem filter_remarks_inner {n : Node} (base : expressionCodes ⊆ codes)
    (inner : n.isBlock = false) (plain : ∀ s, n ≠ .statement s)
    (judged : ∀ m ∈ n.entered, ∀ value j, m.Judges value j → Within codes (c.judge value j))
    (foreign : ∀ r, q r = true → r.finding.code ∉ codes) :
    (c.remarks around n).filter q = [] := by
  refine Within.filter_eq_nil (c.remarks_within around base judged fun s inside => ?_) foreign
  rcases Node.isPart_of_mem_entered inner inside with same | ⟨p, same⟩
  · exact absurd same.symm (plain s)
  · cases p <;> cases same

theorem filter_remarks_statement {s : Statement} (base : expressionCodes ⊆ codes)
    (judged : ∀ m ∈ (Node.statement s).entered,
      ∀ value j, m.Judges value j → Within codes (c.judge value j))
    (foreign : ∀ r, q r = true → r.finding.code ∉ codes) :
    (c.remarks around (.statement s)).filter q = (c.statement around s).filter q := by
  have quiet : ∀ n ∈ (Node.statement s).children, (c.remarks around n).filter q = [] := by
    intro n child
    obtain ⟨e, -, rfl⟩ := List.mem_map.1 child
    exact c.filter_remarks_inner around base rfl (by simp)
      (fun m inside => judged m (Node.entered_of_child child inside)) foreign
  calc
    _ = (c.statement around s).filter q ++
        (Node.statement s).children.flatMap fun n => (c.remarks around n).filter q := by
      rw [remarks_eq]
      simp [enter, leave, List.filter_flatMap]
    _ = _ := by rw [List.flatMap_eq_nil_iff.2 quiet, List.append_nil]

theorem filter_remarks_block {b : Block} (base : expressionCodes ⊆ codes)
    (judged : ∀ m ∈ (Node.block b).entered,
      ∀ value j, m.Judges value j → Within codes (c.judge value j))
    (foreign : ∀ r, q r = true → r.finding.code ∉ codes) :
    (c.remarks around (.block b)).filter q =
      b.statements.flatMap fun s => (c.statement around s).filter q := by
  have inside {n : Node} (child : n ∈ (Node.block b).children) :
      ∀ m ∈ n.entered, ∀ value j, m.Judges value j → Within codes (c.judge value j) :=
    fun m within => judged m (Node.entered_of_child child within)
  have header (h : CatchHeader) (kind : b.kind = .handler h) :
      (c.remarks around (.header h)).filter q = [] := by
    have child : .header h ∈ (Node.block b).children := by simp [Node.children, kind]
    exact c.filter_remarks_inner around base rfl (by simp) (inside child) foreign
  have edge : ∀ n ∈ b.edge.toList.map Node.edge, (c.remarks around n).filter q = [] := by
    intro n member
    obtain ⟨e, -, rfl⟩ := List.mem_map.1 member
    exact c.filter_remarks_inner around base rfl (by simp)
      (inside (List.mem_append_right _ member)) foreign
  have statements : ∀ s ∈ b.statements,
      (c.remarks around (.statement s)).filter q = (c.statement around s).filter q :=
    fun s member => c.filter_remarks_statement around base (inside (List.mem_append_left _
      (List.mem_append_right _ (List.mem_map.2 ⟨s, member, rfl⟩)))) foreign
  calc
    _ = (Node.block b).children.flatMap fun n => (c.remarks around n).filter q := by
      rw [remarks_eq]
      simp [enter, leave, List.filter_flatMap]
    _ = b.statements.flatMap fun s => (c.remarks around (.statement s)).filter q := by
      rw [Node.children, List.flatMap_append, List.flatMap_append,
        List.flatMap_eq_nil_iff.2 edge, List.append_nil, List.flatMap_map]
      cases kind : b.kind with
      | handler h => simp [header h kind]
      | _ => simp
    _ = _ := List.flatMap_congr statements

variable (codes) in
/-- What a routine is told with foreign codes is said at its statements, block by block. -/
theorem filter_routine {g : Graph} (base : expressionCodes ⊆ codes) (whole : routineCodes ⊆ codes)
    (judged : ∀ m ∈ g.entered, ∀ value j, m.Judges value j → Within codes (c.judge value j))
    (foreign : ∀ r, q r = true → r.finding.code ∉ codes) :
    (c.routine g).filter q =
      g.reachableBlocks.flatMap fun b => b.statements.flatMap fun s =>
        (c.statement (g.plan.regions.around b.ordinal) s).filter q := by
  have parent := (c.parentConstructor_within (c.walk g).callsParent
    (whole (by decide))).filter_eq_nil foreign
  have labelled := (labels_within g.labels (List.Subset.trans (by decide) whole)).filter_eq_nil
    foreign
  have dead := (unreachableCode_within g (whole (by decide))).filter_eq_nil foreign
  calc
    _ = (c.walk g).found.filter q := by
      rw [routine, List.filter_append, List.filter_append, List.filter_append, parent, labelled,
        dead, List.append_nil, List.append_nil, List.append_nil]
    _ = g.reachableBlocks.flatMap fun b =>
        (c.remarks (g.plan.regions.around b.ordinal) (.block b)).filter q := by
      rw [walk_found, List.filter_flatMap]
    _ = _ := by
      apply List.flatMap_congr
      intro b reached
      exact c.filter_remarks_block _ base
        (fun m inside => judged m (List.mem_flatMap.2 ⟨b, reached, inside⟩)) foreign

end Statements

theorem mem_unreachableIds_iff {g : Graph} {id : Nat} :
    id ∈ unreachableIds g ↔ id ∈ g.unreachable := by
  rw [unreachableIds, mem_eraseReps, List.mem_mergeSort]

theorem unreachableIds_pairwise (g : Graph) : (unreachableIds g).Pairwise (· < ·) :=
  eraseReps_pairwise (mergeSort_sorted id g.unreachable)

end Context

theorem flatMap_if {α β : Type} (test : α → Bool) (f : α → List β) (l : List α) :
    (l.flatMap fun a => if test a then f a else []) = (l.filter test).flatMap f := by
  induction l with
  | nil => rfl
  | cons a rest ih => by_cases chosen : test a = true <;> simp [chosen, ih]

namespace Routine

variable {symbols : SymbolTable} {r : Routine} {g : Graph} {symbol : RoutineSymbol}

def context (symbols : SymbolTable) (r : Routine) (symbol : RoutineSymbol) : Context :=
  ⟨symbol, symbols, r.registry⟩

theorem diagnostics_eq (body : r.graph = some g)
    (declared : symbols.routine? r.symbol = some symbol) :
    r.diagnostics symbols =
      ((r.context symbols symbol).routine g).map (·.diagnostic r.symbol symbol.heading) := by
  rw [diagnostics, body, declared]
  rfl

theorem mem_diagnostics_of_node (body : r.graph = some g)
    (declared : symbols.routine? r.symbol = some symbol) {n : Node} {m : Remark}
    (inside : n ∈ g.entered)
    (here : (∀ around, m ∈ (r.context symbols symbol).enter around n) ∨
      m ∈ (r.context symbols symbol).leave n) :
    m.diagnostic r.symbol symbol.heading ∈ r.diagnostics symbols := by
  rw [diagnostics_eq body declared]
  exact List.mem_map_of_mem (Context.mem_routine_of_node _ inside here)

theorem diagnostics_within {codes : List String} (body : r.graph = some g)
    (declared : symbols.routine? r.symbol = some symbol)
    (within : Within codes ((r.context symbols symbol).routine g)) :
    ∀ d ∈ r.diagnostics symbols, d.code ∈ codes := by
  intro d member
  rw [diagnostics_eq body declared] at member
  obtain ⟨m, among, rfl⟩ := List.mem_map.1 member
  exact within m among

/-- Diagnostics of one kind, each of which tells of one statement and of the block around it. -/
theorem filter_diagnostics (codes : List String) (q : Finding → Bool) (test : Nat → Bool)
    {finding : Finding} {chosen : Statement → Bool} {property : Nat → Prop} (sound : g.Sound)
    (body : r.graph = some g) (declared : symbols.routine? r.symbol = some symbol)
    (base : expressionCodes ⊆ codes) (whole : routineCodes ⊆ codes)
    (judged : ∀ m ∈ g.entered, ∀ value j, m.Judges value j →
      Within codes ((r.context symbols symbol).judge value j))
    (foreign : ∀ f, q f = true → f.code ∉ codes) (decides : ∀ id, test id = true ↔ property id)
    (each : ∀ b ∈ g.reachableBlocks, ∀ s ∈ b.statements,
      ((r.context symbols symbol).statement (g.plan.regions.around b.ordinal) s).filter
          (fun m => q m.finding) =
        remarkIf (chosen s && test b.ordinal) s.span finding) :
    (r.diagnostics symbols).filter (fun d => q d.finding) =
      (g.reached property).flatMap fun b => (b.statements.filter chosen).map fun s =>
        ⟨r.symbol, s.span.getD symbol.heading, finding⟩ := by
  -- whether the block counts is settled once for all of its statements
  have block (b : Block) :
      (b.statements.flatMap fun s => remarkIf (chosen s && test b.ordinal) s.span finding) =
        if test b.ordinal then (b.statements.filter chosen).map fun s => ⟨s.span, finding⟩
        else [] := by
    cases inside : test b.ordinal with
    | false => simp [remarkIf]
    | true =>
      have one := flatMap_if chosen (fun s => [Remark.mk s.span finding]) b.statements
      rw [← List.map_eq_flatMap] at one
      simpa [remarkIf] using one
  have remarks : ((r.context symbols symbol).routine g).filter (fun m => q m.finding) =
      (g.reached property).flatMap fun b =>
        (b.statements.filter chosen).map fun s => ⟨s.span, finding⟩ := by
    calc
      _ = g.reachableBlocks.flatMap fun b => b.statements.flatMap fun s =>
          remarkIf (chosen s && test b.ordinal) s.span finding := by
        rw [Context.filter_routine _ codes base whole judged fun m => foreign m.finding]
        exact List.flatMap_congr fun b reached => List.flatMap_congr (each b reached)
      _ = _ := by
        simp only [block, flatMap_if fun b : Block => test b.ordinal,
          Graph.filter_reachableBlocks sound.sorted decides]
  rw [diagnostics_eq body declared, List.filter_map]
  change List.map _ (List.filter (fun m : Remark => q m.finding) _) = _
  rw [remarks, List.map_flatMap]
  simp only [List.map_map]
  rfl

end Routine

end FlowLint
