import FlowLint.Analysis
import FlowLint.Proofs.Graph.Plan
import FlowLint.Rule.Step
import Mathlib.Data.List.Basic

/-!
What a walk gathers. Whatever the state in which the visitor comes to a node, it appends the remarks
on the node and all that it contains; the remarks on a graph are those on its reachable blocks, one
block after another.
-/

namespace FlowLint

namespace Walk

@[simp] theorem report_nil (w : Walk) : w.report [] = w := by
  simp [report]

@[simp] theorem report_report (w : Walk) (first second : List Remark) :
    (w.report first).report second = w.report (first ++ second) := by
  simp [report]

@[simp] theorem note_false (w : Walk) : w.note false = w := by
  simp [note]

@[simp] theorem note_note (w : Walk) (first second : Bool) :
    (w.note first).note second = w.note (first || second) := by
  simp [note, Bool.or_assoc]

theorem report_note (w : Walk) (rs : List Remark) (called : Bool) :
    (w.note called).report rs = (w.report rs).note called := rfl

@[simp] theorem current_report (w : Walk) (rs : List Remark) : (w.report rs).current = w.current :=
  rfl

@[simp] theorem current_note (w : Walk) (called : Bool) : (w.note called).current = w.current := rfl

theorem foldl_report {α : Type} (f : α → List Remark) (l : List α) (w : Walk) :
    l.foldl (fun w a => w.report (f a)) w = w.report (l.flatMap f) := by
  induction l generalizing w with
  | nil => simp
  | cons a rest ih => rw [List.foldl_cons, ih, report_report, List.flatMap_cons]

end Walk

def Node.isParentCall : Node → Bool
  | .expr e =>
    match e.form with
    | .call call => Context.callsParentConstructor call
    | _ => false
  | _ => false

theorem Node.not_block_of_mem_children {n : Node} {b : Block} (member : .block b ∈ n.children) :
    False := by
  cases n with
  | block a =>
    obtain ⟨ordinal, kind, statements, edge⟩ := a
    cases kind <;> simp [Node.children] at member
  | expr e =>
    obtain ⟨p, -, same⟩ := List.mem_map.1 member
    cases p <;> cases same
  | type t =>
    obtain ⟨p, -, same⟩ := List.mem_map.1 member
    cases p <;> cases same
  | _ => simp [Node.children] at member

namespace Context

variable (c : Context) (regions : Regions)

def before (n : Node) (w : Walk) : Walk :=
  match n with
  | .block b => { w with current := b.ordinal }
  | n => (w.report (c.enter (surroundings regions w) n)).note n.isParentCall

def after (n : Node) (w : Walk) : Walk := w.report (c.leave n)

theorem lookAtExpr_eq (e : Expr) (walk : Walk → Walk) (w : Walk) :
    c.lookAtExpr e walk w = c.after (.expr e) (walk (c.before regions (.expr e) w)) := by
  obtain ⟨form, span, mask, access, constant, hostType⟩ := e
  cases form with
  | binary op left right =>
    by_cases division : op = .div <;>
      simp [lookAtExpr, after, before, enter, leave, enterExpr, leaveExpr, Node.isParentCall,
        division]
  | unary op operand =>
    by_cases cloning : op = .clone <;>
      simp [lookAtExpr, after, before, enter, leave, enterExpr, leaveExpr, Node.isParentCall,
        cloning]
  | conversion target operand implicit =>
    cases implicit <;>
      simp [lookAtExpr, after, before, enter, leave, enterExpr, leaveExpr, Node.isParentCall]
  | field f =>
    obtain ⟨receiver, type, name, kind⟩ := f
    cases type <;>
      simp [lookAtExpr, after, before, enter, leave, enterExpr, leaveExpr, Node.isParentCall]
  | _ => simp [lookAtExpr, after, before, enter, leave, enterExpr, leaveExpr, Node.isParentCall]

theorem look_eq (n : Node) (walk : Walk → Walk) (w : Walk) :
    (c.visitor regions).look n walk w = c.after n (walk (c.before regions n w)) := by
  cases n with
  | block b => simp [Visitor.look, visitor, after, before, leave]
  | header h =>
    simp [Visitor.look, visitor, lookAtHeader, Walk.foldl_report, after, before, enter, leave,
      Node.isParentCall]
  | statement s =>
    obtain ⟨form, span⟩ := s
    cases form <;>
      simp [Visitor.look, visitor, lookAtStatement, after, before, enter, leave, statement,
        Node.isParentCall]
  | edge e =>
    cases e <;>
      simp [Visitor.look, visitor, lookAtEdge, after, before, enter, leave, Node.isParentCall]
  | expr e => exact c.lookAtExpr_eq regions e walk w
  | type t =>
    simp [Visitor.look, visitor, lookAtType, after, before, enter, leave, Node.isParentCall]

theorem remarks_eq (around : Surroundings) (n : Node) :
    c.remarks around n =
      c.enter around n ++ n.children.flatMap (c.remarks around) ++ c.leave n := by
  unfold remarks
  conv => lhs; rw [Node.visit_eq]
  simp only [List.flatMap_append, List.flatMap_cons, List.flatMap_nil, List.flatMap_assoc, step,
    List.append_nil]

/-- What a visit adds to the state of the walk. -/
def gather (w : Walk) (n : Node) : Walk :=
  (w.report (c.remarks (surroundings regions w) n)).note (n.entered.any Node.isParentCall)

theorem visitAll_eq {nodes : List Node}
    (each : ∀ n ∈ nodes, ∀ w, (c.visitor regions).visit n w = c.gather regions w n) (w : Walk) :
    (c.visitor regions).visitAll nodes w =
      (w.report (nodes.flatMap (c.remarks (surroundings regions w)))).note
        ((nodes.flatMap Node.entered).any Node.isParentCall) := by
  induction nodes generalizing w with
  | nil => simp
  | cons n rest ih =>
    have later := ih fun m member => each m (List.mem_cons_of_mem n member)
    rw [Visitor.visitAll_cons, each n List.mem_cons_self, later, gather, Walk.report_note,
      Walk.report_report, Walk.note_note]
    simp [surroundings]

theorem visit_gathers (n : Node) (inner : ∀ b, n ≠ .block b) (w : Walk) :
    (c.visitor regions).visit n w = c.gather regions w n := by
  induction n using Node.induction generalizing w with
  | step n ih =>
    have each (m : Node) (member : m ∈ n.children) (w : Walk) :
        (c.visitor regions).visit m w = c.gather regions w m := by
      refine ih m member (fun b same => ?_) w
      subst same
      exact Node.not_block_of_mem_children member
    have ahead : c.before regions n w =
        (w.report (c.enter (surroundings regions w) n)).note n.isParentCall := by
      cases n with
      | block b => exact absurd rfl (inner b)
      | _ => rfl
    rw [Visitor.visit_eq, look_eq, visitAll_eq c regions each, ahead, gather, remarks_eq,
      Node.entered_eq]
    simp [after, Walk.report_note, surroundings]

theorem visit_block (b : Block) (w : Walk) :
    (c.visitor regions).visit (.block b) w = c.gather regions { w with current := b.ordinal }
      (.block b) := by
  have each (m : Node) (member : m ∈ (Node.block b).children) (w : Walk) :
      (c.visitor regions).visit m w = c.gather regions w m := by
    refine c.visit_gathers regions m (fun a same => ?_) w
    subst same
    exact Node.not_block_of_mem_children member
  rw [Visitor.visit_eq, look_eq, visitAll_eq c regions each, gather, remarks_eq, Node.entered_eq]
  simp [before, after, enter, leave, Node.isParentCall, surroundings]

theorem visitAll_blocks (blocks : List Block) (w : Walk) :
    ((c.visitor regions).visitAll (blocks.map .block) w).found =
        w.found ++ blocks.flatMap (fun b => c.remarks (regions.around b.ordinal) (.block b)) ∧
      ((c.visitor regions).visitAll (blocks.map .block) w).callsParent =
        (w.callsParent ||
          (blocks.flatMap fun b => (Node.block b).entered).any Node.isParentCall) := by
  induction blocks generalizing w with
  | nil => simp
  | cons b rest ih =>
    rw [List.map_cons, Visitor.visitAll_cons, visit_block, (ih _).1, (ih _).2]
    simp [gather, Walk.report, Walk.note, surroundings, Bool.or_assoc]

theorem walk_found (g : Graph) :
    (c.walk g).found = g.reachableBlocks.flatMap fun b =>
      c.remarks (g.plan.regions.around b.ordinal) (.block b) := by
  rw [walk, (c.visitAll_blocks _ _ _).1]
  rfl

theorem walk_callsParent (g : Graph) :
    (c.walk g).callsParent = g.entered.any Node.isParentCall := by
  rw [walk, (c.visitAll_blocks _ _ _).2]
  rfl

theorem remarks_part_eq (n : Node) (part : ∃ p, n = .ofPart p) (first second : Surroundings) :
    c.remarks first n = c.remarks second n := by
  induction n using Node.induction with
  | step n ih =>
    have children : ∀ m ∈ n.children, c.remarks first m = c.remarks second m := by
      intro m member
      apply ih m member
      obtain ⟨p, rfl⟩ := part
      cases p <;>
      · obtain ⟨q, -, rfl⟩ := List.mem_map.1 member
        exact ⟨q, rfl⟩
    have entering : c.enter first n = c.enter second n := by
      obtain ⟨p, rfl⟩ := part
      cases p <;> rfl
    rw [remarks_eq, remarks_eq, entering]
    congr 2
    exact List.flatMap_congr children

/-- The remarks on a part of an expression and all that it contains. They do not depend on where it
stands. -/
def ofPart (p : Part Expr) : List Remark := c.remarks ⟨false, false⟩ (.ofPart p)

def ofHeader (h : CatchHeader) : List Remark :=
  h.types.flatMap primitiveMisuse ++ h.types.flatMap (fun t => c.ofPart (.type t)) ++
    h.caught.toList.flatMap fun e => c.ofPart (.expr e)

def ofStatement (around : Surroundings) (s : Statement) : List Remark :=
  c.statement around s ++ s.parts.flatMap fun e => c.ofPart (.expr e)

def ofEdge (e : Edge) : List Remark :=
  e.parts.flatMap (fun value => c.ofPart (.expr value)) ++ c.leave (.edge e)

def ofBlock (around : Surroundings) (b : Block) : List Remark :=
  (match b.kind with
    | .handler h => c.ofHeader h
    | _ => []) ++
  b.statements.flatMap (c.ofStatement around) ++ b.edge.toList.flatMap c.ofEdge

theorem remarks_ofPart (around : Surroundings) (p : Part Expr) :
    c.remarks around (.ofPart p) = c.ofPart p := c.remarks_part_eq _ ⟨p, rfl⟩ _ _

theorem remarks_expr (around : Surroundings) (e : Expr) :
    c.remarks around (.expr e) = c.ofPart (.expr e) := c.remarks_ofPart around (.expr e)

theorem remarks_type (around : Surroundings) (t : TypeReference Expr) :
    c.remarks around (.type t) = c.ofPart (.type t) := c.remarks_ofPart around (.type t)

theorem remarks_header (around : Surroundings) (h : CatchHeader) :
    c.remarks around (.header h) = c.ofHeader h := by
  rw [remarks_eq]
  simp only [Node.children, List.flatMap_append, List.flatMap_map, remarks_type, remarks_expr]
  simp [enter, leave, ofHeader]

theorem remarks_statement (around : Surroundings) (s : Statement) :
    c.remarks around (.statement s) = c.ofStatement around s := by
  rw [remarks_eq]
  simp only [Node.children, List.flatMap_map, remarks_expr]
  simp [enter, leave, ofStatement]

theorem remarks_edge (around : Surroundings) (e : Edge) :
    c.remarks around (.edge e) = c.ofEdge e := by
  rw [remarks_eq]
  simp only [Node.children, List.flatMap_map, remarks_expr]
  simp [enter, ofEdge]

theorem remarks_block (around : Surroundings) (b : Block) :
    c.remarks around (.block b) = c.ofBlock around b := by
  rw [remarks_eq]
  simp only [Node.children, List.flatMap_append, List.flatMap_map, remarks_statement, remarks_edge]
  cases kind : b.kind <;> simp [enter, leave, ofBlock, kind, remarks_header]

theorem ofPart_expr (e : Expr) :
    c.ofPart (.expr e) = c.enterExpr e ++ e.form.parts.flatMap c.ofPart ++ c.leaveExpr e := by
  rw [← c.remarks_expr ⟨false, false⟩, remarks_eq]
  simp only [Node.children, List.flatMap_map, remarks_ofPart]
  rfl

theorem ofPart_type (t : TypeReference Expr) :
    c.ofPart (.type t) = c.reference t ++ t.parts.flatMap c.ofPart := by
  rw [← c.remarks_type ⟨false, false⟩, remarks_eq]
  simp only [Node.children, List.flatMap_map, remarks_ofPart, leave, List.append_nil]
  rfl

theorem visit_part (p : Part Expr) (w : Walk) :
    ((c.visitor regions).visit (.ofPart p) w).found = w.found ++ c.ofPart p := by
  have inner (b : Block) : Node.ofPart p ≠ .block b := by
    cases p <;> simp [Node.ofPart]
  rw [visit_gathers c regions _ inner, gather, remarks_ofPart]
  rfl

/-- A walk finds the remarks on the reachable blocks in ascending order, each block by itself. Those
on an expression are the same wherever it stands and whatever was found before: what is said about
it first, then the remarks on each of its parts, then what is said about it last. -/
theorem walk_exact {c : Context} {g : Graph} (sound : g.Sound) :
    Ascending g.reachableBlocks ∧
      (∀ b, b ∈ g.reachableBlocks ↔ b ∈ g.blocks ∧ g.Reachable b.ordinal) ∧
      (c.walk g).found =
        g.reachableBlocks.flatMap (fun b => c.ofBlock (g.plan.regions.around b.ordinal) b) ∧
      (∀ e, c.ofPart (.expr e) =
        c.enterExpr e ++ e.form.parts.flatMap c.ofPart ++ c.leaveExpr e) ∧
      (∀ t, c.ofPart (.type t) = c.reference t ++ t.parts.flatMap c.ofPart) ∧
      (∀ regions p w,
        ((c.visitor regions).visit (.ofPart p) w).found = w.found ++ c.ofPart p) ∧
      ∀ regions n, ∃ before after : Walk → Walk,
        (∀ walk w, (c.visitor regions).look n walk w = after (walk (before w))) ∧
          ∀ w, (c.visitor regions).visit n w =
            after ((c.visitor regions).visitAll n.children (before w)) := by
  refine ⟨Graph.reachableBlocks_ascending sound.sorted,
    fun b => Graph.mem_reachableBlocks_iff sound.sorted, ?_, c.ofPart_expr, c.ofPart_type,
    c.visit_part, fun regions n => ⟨c.before regions n, c.after n, c.look_eq regions n, ?_⟩⟩
  · rw [walk_found]
    simp only [remarks_block]
  · intro w
    rw [Visitor.visit_eq, look_eq]

def evalLoop : Graph :=
  let text : Expr := ⟨.literal (.text "f();"), none, .void, ⟨true, false, false, false⟩, none, none⟩
  let use : Expr := ⟨.eval text, some ⟨6, 20⟩, .void, ⟨true, false, false, false⟩, none, none⟩
  { start := 0
    exit := 2
    blocks :=
      [⟨0, .start, [], some (.jump 1)⟩,
       ⟨1, .plain, [⟨.echo [use], none⟩], some (.branch text 1 2)⟩,
       ⟨2, .exit, [], none⟩]
    labels := []
    unreachable := [] }

theorem evalLoop_sound : evalLoop.Sound := by
  constructor
  · unfold Ascending
    decide
  · decide

def script : Context :=
  ⟨⟨"main", .globalCode, none, [], false, false, none, none, ⟨0, 0⟩⟩, .empty, .empty⟩

theorem evalLoop_walk :
    evalLoop.Sound ∧ ⟨some ⟨6, 10⟩, .evalUsed⟩ ∈ (script.walk evalLoop).found := by
  obtain ⟨-, reachable, found, expression, -⟩ := walk_exact (c := script) evalLoop_sound
  refine ⟨evalLoop_sound, ?_⟩
  rw [found, List.mem_flatMap]
  refine ⟨_, (reachable _).2 ⟨List.mem_cons_of_mem _ List.mem_cons_self, .single ?_⟩, ?_⟩
  · exact ⟨_, List.mem_cons_self, rfl, _, rfl, List.mem_singleton.2 rfl⟩
  · simp [ofBlock, ofStatement, Statement.parts, expression, enterExpr, evalUse, Span.take]

end Context

end FlowLint
