import FlowLint.Analysis
import FlowLint.Proofs.Related
import FlowLint.Proofs.Remask.Tree
import FlowLint.Program.Defect

/-!
Programs that differ in nothing but the masks of their expressions. Whatever does not look at
expressions finds the same in both: what is wrong with them, which blocks control can reach, and in
which regions they lie. The visits of the two go through corresponding nodes.
-/

namespace FlowLint

variable {M : Mask → Mask → Prop}

structure StaticVariable.Remasked (M : Mask → Mask → Prop) (v v' : StaticVariable) : Prop where
  var : v.var.Remasked M v'.var
  initial : Option.Rel (Expr.Remasked M) v.initial v'.initial

inductive StatementForm.Remasked (M : Mask → Mask → Prop) : StatementForm → StatementForm → Prop
    where
  | expression {value value' : Expr} : value.Remasked M value' →
      Remasked M (.expression value) (.expression value')
  | return {value value' : Option Expr} : Option.Rel (Expr.Remasked M) value value' →
      Remasked M (.return value) (.return value')
  | yield {key key' value value' : Option Expr} : Option.Rel (Expr.Remasked M) key key' →
      Option.Rel (Expr.Remasked M) value value' → Remasked M (.yield key value) (.yield key' value')
  | echo {values values' : List Expr} : List.Forall₂ (Expr.Remasked M) values values' →
      Remasked M (.echo values) (.echo values')
  | unset {values values' : List Expr} : List.Forall₂ (Expr.Remasked M) values values' →
      Remasked M (.unset values) (.unset values')
  | staticVariables {declared declared' : List StaticVariable} :
      List.Forall₂ (StaticVariable.Remasked M) declared declared' →
      Remasked M (.staticVariables declared) (.staticVariables declared')
  | globals {values values' : List Expr} : List.Forall₂ (Expr.Remasked M) values values' →
      Remasked M (.globals values) (.globals values')
  | declare (clause : Span) : Remasked M (.declare clause) (.declare clause)

structure Statement.Remasked (M : Mask → Mask → Prop) (s s' : Statement) : Prop where
  form : s.form.Remasked M s'.form
  span : s'.span = s.span

structure CatchHeader.Remasked (M : Mask → Mask → Prop) (h h' : CatchHeader) : Prop where
  types : List.Forall₂ (TypeReference.Matches (Expr.Remasked M)) h.types h'.types
  caught : Option.Rel (Expr.Remasked M) h.caught h'.caught

inductive BlockKind.Remasked (M : Mask → Mask → Prop) : BlockKind → BlockKind → Prop where
  | plain : Remasked M .plain .plain
  | start : Remasked M .start .start
  | exit : Remasked M .exit .exit
  | final : Remasked M .final .final
  | handler {h h' : CatchHeader} : h.Remasked M h' → Remasked M (.handler h) (.handler h')

structure SwitchCase.Remasked (M : Mask → Mask → Prop) (c c' : SwitchCase) : Prop where
  label : Option.Rel (Expr.Remasked M) c.label c'.label
  target : c'.target = c.target

inductive Edge.Remasked (M : Mask → Mask → Prop) : Edge → Edge → Prop where
  | jump (target : Nat) : Remasked M (.jump target) (.jump target)
  | loopBack (target : Nat) : Remasked M (.loopBack target) (.loopBack target)
  | branch {condition condition' : Expr} (whenTrue whenFalse : Nat) :
      condition.Remasked M condition' →
      Remasked M (.branch condition whenTrue whenFalse) (.branch condition' whenTrue whenFalse)
  | select {value value' : Expr} {cases cases' : List SwitchCase} : value.Remasked M value' →
      List.Forall₂ (SwitchCase.Remasked M) cases cases' →
      Remasked M (.select value cases) (.select value' cases')
  | foreach {collection collection' : Expr} (target : Nat) : collection.Remasked M collection' →
      Remasked M (.foreach collection target) (.foreach collection' target)
  | foreachNext {key key' : Option Expr} {value value' : Expr} (body next : Nat) :
      Option.Rel (Expr.Remasked M) key key' → value.Remasked M value' →
      Remasked M (.foreachNext key value body next) (.foreachNext key' value' body next)
  | guarded (construct : TryConstruct) : Remasked M (.guarded construct) (.guarded construct)

theorem Statement.Remasked.parts {s s' : Statement} (remasked : s.Remasked M s') :
    List.Forall₂ (Expr.Remasked M) s.parts s'.parts := by
  obtain ⟨form, span⟩ := s
  obtain ⟨form', span'⟩ := s'
  cases remasked.form with
  | expression value => exact .cons value .nil
  | «return» value => exact value.toList
  | yield key value => exact List.rel_append key.toList value.toList
  | echo values => exact values
  | unset values => exact values
  | globals values => exact values
  | staticVariables declared =>
    exact declared.flatMap fun _ _ related => .cons related.var related.initial.toList
  | declare => exact .nil

namespace Edge.Remasked

variable {e e' : Edge}

theorem parts (remasked : e.Remasked M e') : List.Forall₂ (Expr.Remasked M) e.parts e'.parts := by
  cases remasked with
  | jump => exact .nil
  | loopBack => exact .nil
  | branch _ _ condition => exact .cons condition .nil
  | select value labels =>
    exact .cons value (labels.flatMap fun _ _ related => related.label.toList)
  | foreach _ collection => exact .cons collection .nil
  | foreachNext _ _ key value => exact List.rel_append key.toList (.cons value .nil)
  | guarded => exact .nil

theorem targets_eq (remasked : e.Remasked M e') : e'.targets = e.targets := by
  cases remasked with
  | select _ labels => exact labels.map_eq fun _ _ related => related.target
  | _ => rfl

theorem construct?_eq (remasked : e.Remasked M e') : e'.construct? = e.construct? := by
  cases remasked <;> rfl

end Edge.Remasked

structure Block.Remasked (M : Mask → Mask → Prop) (b b' : Block) : Prop where
  ordinal : b'.ordinal = b.ordinal
  kind : b.kind.Remasked M b'.kind
  statements : List.Forall₂ (Statement.Remasked M) b.statements b'.statements
  edge : Option.Rel (Edge.Remasked M) b.edge b'.edge

structure Graph.Remasked (M : Mask → Mask → Prop) (g g' : Graph) : Prop where
  start : g'.start = g.start
  exit : g'.exit = g.exit
  blocks : List.Forall₂ (Block.Remasked M) g.blocks g'.blocks
  labels : g'.labels = g.labels
  unreachable : g'.unreachable = g.unreachable

structure Routine.Remasked (M : Mask → Mask → Prop) (r r' : Routine) : Prop where
  symbol : r'.symbol = r.symbol
  graph : Option.Rel (Graph.Remasked M) r.graph r'.graph
  registry : r'.registry = r.registry

/-- The second program is the first with other masks, each of which is related to the mask that it
replaces. -/
structure Program.Remasked (M : Mask → Mask → Prop) (p p' : Program) : Prop where
  symbols : p'.symbols = p.symbols
  routines : List.Forall₂ (Routine.Remasked M) p.routines p'.routines

theorem lies_below (id : Nat) {blocks blocks' : List Block}
    (remasked : List.Forall₂ (Block.Remasked M) blocks blocks') :
    (blocks'.head?.any fun b => id < b.ordinal) = blocks.head?.any fun b => id < b.ordinal := by
  cases remasked with
  | nil => rfl
  | cons here _ => simp [here.ordinal]

theorem bisect_remasked {id : Nat} {blocks blocks' : List Block}
    (remasked : List.Forall₂ (Block.Remasked M) blocks blocks') :
    Option.Rel (Block.Remasked M) (bisect id blocks) (bisect id blocks') := by
  fun_induction bisect id blocks generalizing blocks' with
  | case1 =>
    obtain rfl := List.forall₂_nil_left_iff.1 remasked
    rw [bisect]
    exact .none
  | case2 b same =>
    obtain ⟨b', rest', here, nothing, rfl⟩ := List.forall₂_cons_left_iff.1 remasked
    obtain rfl := List.forall₂_nil_left_iff.1 nothing
    rw [bisect, if_pos (here.ordinal.trans same)]
    exact .some here
  | case3 b other =>
    obtain ⟨b', rest', here, nothing, rfl⟩ := List.forall₂_cons_left_iff.1 remasked
    obtain rfl := List.forall₂_nil_left_iff.1 nothing
    rw [bisect, if_neg fun same => other (here.ordinal.symm.trans same)]
    exact .none
  | case4 b c rest half upper less =>
    obtain ⟨b', tail', here, tail, rfl⟩ := List.forall₂_cons_left_iff.1 remasked
    obtain ⟨c', rest', next, later, rfl⟩ := List.forall₂_cons_left_iff.1 tail
    -- the lists are as long as each other, and the middle blocks have the same ordinal
    have size := remasked.length_eq
    have middle := lies_below id (List.forall₂_drop half remasked)
    rw [bisect, ← size, if_pos (middle.trans less)]
    rename_i ih
    exact ih (List.forall₂_take _ remasked)
  | case5 b c rest half upper notLess =>
    obtain ⟨b', tail', here, tail, rfl⟩ := List.forall₂_cons_left_iff.1 remasked
    obtain ⟨c', rest', next, later, rfl⟩ := List.forall₂_cons_left_iff.1 tail
    have size := remasked.length_eq
    have middle := lies_below id (List.forall₂_drop half remasked)
    rw [bisect, ← size, if_neg (middle ▸ notLess)]
    rename_i ih
    exact ih (List.forall₂_drop _ remasked)

namespace Search

variable {g g' : Graph}

theorem run_of_done {s : Search} (done : s.pending = []) : s.run g = s := by
  rw [run]
  split
  · rfl
  · rename_i waiting
    cases done.symm.trans waiting

theorem run_of_waiting {s : Search} {id : Nat} {rest : List Nat}
    (waiting : s.pending = id :: rest) : s.run g = (s.look g id rest).run g := by
  rw [run]
  split
  · rename_i done
    cases done.symm.trans waiting
  · rename_i next
    cases next.symm.trans waiting
    rfl

variable (edges : ∀ id, Option.Rel (Edge.Remasked M) (edge? g id) (edge? g' id))

include edges

/-- Of an edge, the search sees nothing but its targets and its construct. -/
theorem look_remasked (s : Search) (id : Nat) (rest : List Nat) :
    s.look g' id rest = s.look g id rest := by
  have related := edges id
  unfold look
  generalize edge? g id = edge, edge? g' id = edge' at related
  cases related with
  | none => rfl
  | some related => simp only [related.targets_eq, related.construct?_eq]

theorem run_remasked (s : Search) : s.run g' = s.run g := by
  fun_induction run g s with
  | case1 s done => exact run_of_done done
  | case2 s id rest waiting ih => rw [run_of_waiting waiting, look_remasked edges, ih]

end Search

namespace Graph.Remasked

variable {g g' : Graph}

theorem block? (remasked : g.Remasked M g') (id : Nat) :
    Option.Rel (Block.Remasked M) (g.block? id) (g'.block? id) := bisect_remasked remasked.blocks

theorem edge? (remasked : g.Remasked M g') (id : Nat) :
    Option.Rel (Edge.Remasked M) (Search.edge? g id) (Search.edge? g' id) :=
  (remasked.block? id).bind fun _ _ related => related.edge

theorem plan_eq (remasked : g.Remasked M g') : g'.plan = g.plan := by
  have begins : Search.init g' = Search.init g := by rw [Search.init, remasked.start, Search.init]
  unfold plan
  rw [begins, Search.run_remasked remasked.edge?]

theorem reachableBlocks (remasked : g.Remasked M g') :
    List.Forall₂ (Block.Remasked M) g.reachableBlocks g'.reachableBlocks := by
  rw [Graph.reachableBlocks, Graph.reachableBlocks, remasked.plan_eq]
  refine List.rel_filterMap (R := Eq) ?_ (List.forall₂_refl _)
  rintro id _ rfl
  exact remasked.block? id

theorem isSorted_eq (remasked : g.Remasked M g') : g'.isSorted = g.isSorted := by
  rw [isSorted, isSorted, remasked.blocks.map_eq fun _ _ related => related.ordinal]

theorem references_eq (remasked : g.Remasked M g') : g'.references = g.references := by
  have targets (b b' : Block) (related : b.Remasked M b') :
      b'.edge.toList.flatMap Edge.targets = b.edge.toList.flatMap Edge.targets :=
    related.edge.toList.flatMap_eq fun _ _ edges => edges.targets_eq
  rw [references, references, remasked.start, remasked.blocks.flatMap_eq targets]

theorem missingBlock?_eq (remasked : g.Remasked M g') : g'.missingBlock? = g.missingBlock? := by
  have absent (id : Nat) : (g'.block? id).isNone = (g.block? id).isNone := by
    rw [← Option.not_isSome, ← Option.not_isSome, (remasked.block? id).isSome_eq]
  simp only [missingBlock?, remasked.references_eq, absent]

end Graph.Remasked

theorem Routine.Remasked.graphDefect?_eq {r r' : Routine} (remasked : r.Remasked M r') :
    r'.graphDefect? = r.graphDefect? := by
  have related := remasked.graph
  unfold graphDefect?
  generalize r.graph = graph, r'.graph = graph' at related
  cases related with
  | none => rfl
  | some related =>
    simp only [Option.bind_some, related.isSorted_eq, related.missingBlock?_eq, remasked.symbol]

theorem firstDefect?_remasked {symbols : SymbolTable} {earlier : List RoutineId}
    {routines routines' : List Routine}
    (remasked : List.Forall₂ (Routine.Remasked M) routines routines') :
    firstDefect? symbols earlier routines' = firstDefect? symbols earlier routines := by
  induction remasked generalizing earlier with
  | nil => rfl
  | cons here _ ih =>
    simp only [firstDefect?, Routine.defect?, here.symbol, here.graphDefect?_eq, ih]

theorem Program.Remasked.defect?_eq {p p' : Program} (remasked : p.Remasked M p') :
    p'.defect? = p.defect? := by
  rw [defect?, remasked.symbols, firstDefect?_remasked remasked.routines, defect?]

inductive Node.Remasked (M : Mask → Mask → Prop) : Node → Node → Prop where
  | block {b b' : Block} : b.Remasked M b' → Remasked M (.block b) (.block b')
  | header {h h' : CatchHeader} : h.Remasked M h' → Remasked M (.header h) (.header h')
  | statement {s s' : Statement} : s.Remasked M s' → Remasked M (.statement s) (.statement s')
  | edge {e e' : Edge} : e.Remasked M e' → Remasked M (.edge e) (.edge e')
  | expr {e e' : Expr} : e.Remasked M e' → Remasked M (.expr e) (.expr e')
  | type {t t' : TypeReference Expr} : t.Matches (Expr.Remasked M) t' →
      Remasked M (.type t) (.type t')

inductive Step.Remasked (M : Mask → Mask → Prop) : Step → Step → Prop where
  | enter {n n' : Node} : n.Remasked M n' → Remasked M (.enter n) (.enter n')
  | leave {n n' : Node} : n.Remasked M n' → Remasked M (.leave n) (.leave n')

theorem Node.remasked_ofPart {p p' : Part Expr} (related : p.Matches (Expr.Remasked M) p') :
    (ofPart p).Remasked M (ofPart p') := by
  cases related with
  | expr related => exact .expr related
  | type related => exact .type related

namespace Node.Remasked

variable {n n' : Node}

theorem children (remasked : n.Remasked M n') :
    List.Forall₂ (Node.Remasked M) n.children n'.children := by
  cases remasked with
  | @block b b' related =>
    refine List.rel_append (List.rel_append ?_ ?_) ?_
    · have kinds := related.kind
      generalize b.kind = kind, b'.kind = kind' at kinds
      cases kinds with
      | handler headers => exact .cons (.header headers) .nil
      | _ => exact .nil
    · exact List.rel_map (fun _ _ => .statement) related.statements
    · exact List.rel_map (fun _ _ => .edge) related.edge.toList
  | header related =>
    exact List.rel_append (List.rel_map (fun _ _ => .type) related.types)
      (List.rel_map (fun _ _ => .expr) related.caught.toList)
  | statement related => exact List.rel_map (fun _ _ => .expr) related.parts
  | edge related => exact List.rel_map (fun _ _ => .expr) related.parts
  | expr related => exact List.rel_map (fun _ _ parts => remasked_ofPart parts) related.form.parts
  | type related => exact List.rel_map (fun _ _ parts => remasked_ofPart parts) related.parts

theorem visit (remasked : n.Remasked M n') :
    List.Forall₂ (Step.Remasked M) n.visit n'.visit := by
  -- on the first node alone: the children of the second correspond to its own
  induction n using Node.induction generalizing n' with
  | step n ih =>
    have below : List.Forall₂ (Step.Remasked M) (n.children.flatMap Node.visit)
        (n'.children.flatMap Node.visit) :=
      remasked.children.attach.flatMap fun m _ ⟨child, related⟩ => ih m child related
    rw [Node.visit_eq, Node.visit_eq]
    exact List.rel_append (.cons (.enter remasked) below) (.cons (.leave remasked) .nil)

theorem entered (remasked : n.Remasked M n') :
    List.Forall₂ (Node.Remasked M) n.entered n'.entered := by
  refine List.rel_filterMap ?_ remasked.visit
  intro step step' related
  cases related with
  | enter related => exact .some related
  | leave => exact .none

end Node.Remasked

theorem Graph.Remasked.entered {g g' : Graph} (remasked : g.Remasked M g') :
    List.Forall₂ (Node.Remasked M) g.entered g'.entered :=
  remasked.reachableBlocks.flatMap fun _ _ related => (Node.Remasked.block related).entered

end FlowLint
