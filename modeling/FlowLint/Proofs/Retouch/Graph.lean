import FlowLint.Proofs.Correspondence
import FlowLint.Proofs.Retouch.Tree

namespace FlowLint

variable (t : Retouch)

def StaticVariable.retouch (v : StaticVariable) : StaticVariable :=
  ⟨v.var.retouch t, v.initial.map (·.retouch t)⟩

def StatementForm.retouch : StatementForm → StatementForm
  | expression value => expression (value.retouch t)
  | .return value => .return (value.map (·.retouch t))
  | yield key value => yield (key.map (·.retouch t)) (value.map (·.retouch t))
  | echo values => echo (values.map (·.retouch t))
  | unset values => unset (values.map (·.retouch t))
  | staticVariables declared => staticVariables (declared.map (·.retouch t))
  | globals values => globals (values.map (·.retouch t))
  | declare clause => declare clause

def Statement.retouch (s : Statement) : Statement := ⟨s.form.retouch t, t.span s.span⟩

def CatchHeader.retouch (h : CatchHeader) : CatchHeader :=
  ⟨h.types.map (·.retouch t), h.caught.map (·.retouch t)⟩

def BlockKind.retouch : BlockKind → BlockKind
  | handler header => handler (header.retouch t)
  | kind => kind

def SwitchCase.retouch (c : SwitchCase) : SwitchCase :=
  { c with label := c.label.map (·.retouch t) }

def Edge.retouch : Edge → Edge
  | jump target => jump target
  | loopBack target => loopBack target
  | branch condition whenTrue whenFalse => branch (condition.retouch t) whenTrue whenFalse
  | select value cases => select (value.retouch t) (cases.map (·.retouch t))
  | foreach collection target => foreach (collection.retouch t) target
  | foreachNext key value body next =>
    foreachNext (key.map (·.retouch t)) (value.retouch t) body next
  | guarded construct => guarded construct

theorem Statement.parts_retouch (s : Statement) :
    (s.retouch t).parts = s.parts.map (Expr.retouch t) := by
  obtain ⟨form, span⟩ := s
  cases form with
  | staticVariables declared =>
    simp [parts, retouch, StatementForm.retouch, StaticVariable.retouch, Option.toList_map,
      List.flatMap_map, List.map_flatMap]
  | _ => simp [parts, retouch, StatementForm.retouch, Option.toList_map]

namespace Edge

theorem parts_retouch (e : Edge) : (e.retouch t).parts = e.parts.map (Expr.retouch t) := by
  cases e with
  | select value cases =>
    simp [parts, retouch, SwitchCase.retouch, Option.toList_map, List.flatMap_map,
      List.map_flatMap]
  | _ => simp [parts, retouch, Option.toList_map]

theorem targets_retouch (e : Edge) : (e.retouch t).targets = e.targets := by
  cases e with
  | select value cases => simp [targets, retouch, SwitchCase.retouch]
  | _ => rfl

theorem construct?_retouch (e : Edge) : (e.retouch t).construct? = e.construct? := by
  cases e <;> rfl

end Edge

def Block.retouch (b : Block) : Block :=
  { b with
    kind := b.kind.retouch t
    statements := b.statements.map (·.retouch t)
    edge := b.edge.map (·.retouch t) }

def Graph.retouch (g : Graph) : Graph := { g with blocks := g.blocks.map (·.retouch t) }

def Program.retouch (p : Program) : Program := p.mapBodies fun _ g => g.retouch t

theorem Block.edge_follows_retouch (b : Block) :
    Option.Rel (Edge.Follows id) b.edge (b.retouch t).edge :=
  .map_right (fun e => .of_eq (e.targets_retouch t) (e.construct?_retouch t)) b.edge

namespace Graph

variable {g : Graph}

theorem follows_retouch (g : Graph) :
    g.Follows id (fun b b' => b' = b.retouch t) (g.retouch t) :=
  follows_map rfl rfl (fun _ => rfl) (Block.edge_follows_retouch t) (strictMono_id.strictMonoOn _)

theorem Sound.retouch (sound : g.Sound) : (g.retouch t).Sound := by
  refine (g.follows_retouch t).sound sound ?_
  rintro b _ rfl
  exact b.edge_follows_retouch t

end Graph

theorem Program.Valid.retouch {p : Program} (valid : p.Valid) : (p.retouch t).Valid :=
  valid.mapBodies fun r listed g body => (valid.sound r listed g body).retouch t

def Node.retouch : Node → Node
  | block b => block (b.retouch t)
  | header h => header (h.retouch t)
  | statement s => statement (s.retouch t)
  | edge e => edge (e.retouch t)
  | expr e => expr (e.retouch t)
  | type r => type (r.retouch t)

def Step.retouch : Step → Step
  | enter n => enter (n.retouch t)
  | leave n => leave (n.retouch t)

namespace Node

theorem retouch_ofPart (p : Part Expr) : (ofPart p).retouch t = ofPart (p.retouch t) := by
  cases p <;> rfl

theorem children_retouch (n : Node) : (n.retouch t).children = n.children.map (Node.retouch t) := by
  have parts (l : List (Part Expr)) :
      (l.map (Part.retouch t)).map ofPart = (l.map ofPart).map (Node.retouch t) := by
    simp [Function.comp_def, retouch_ofPart]
  cases n with
  | block b =>
    obtain ⟨ordinal, kind, statements, edge⟩ := b
    cases kind <;> cases edge <;>
      simp [children, retouch, Block.retouch, BlockKind.retouch, Function.comp_def]
  | header h =>
    obtain ⟨types, caught⟩ := h
    cases caught <;> simp [children, retouch, CatchHeader.retouch, Function.comp_def]
  | statement s => simp [children, retouch, Statement.parts_retouch, Function.comp_def]
  | edge e => simp [children, retouch, Edge.parts_retouch, Function.comp_def]
  | expr e => simp only [children, retouch, Expr.parts_retouch, parts]
  | type r => simp only [children, retouch, TypeReference.parts_retouch, parts]

theorem visit_retouch (n : Node) : (n.retouch t).visit = n.visit.map (Step.retouch t) := by
  induction n using Node.induction with
  | step n ih =>
    have below : ((n.retouch t).children.flatMap visit) =
        (n.children.flatMap visit).map (Step.retouch t) := by
      rw [children_retouch, List.flatMap_map, List.map_flatMap]
      exact List.flatMap_congr ih
    rw [visit_eq, visit_eq, below]
    simp [Step.retouch]

theorem entered_retouch (n : Node) : (n.retouch t).entered = n.entered.map (Node.retouch t) := by
  have step (s : Step) : (s.retouch t).entered? = s.entered?.map (Node.retouch t) := by
    cases s <;> rfl
  rw [entered, entered, visit_retouch, List.filterMap_map, List.map_filterMap]
  exact List.filterMap_congr fun s _ => step s

end Node

theorem Block.entered_retouch (b : Block) :
    (Node.block (b.retouch t)).entered = (Node.block b).entered.map (Node.retouch t) :=
  Node.entered_retouch t (.block b)

end FlowLint
