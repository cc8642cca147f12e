import FlowLint.Document.Graph
import FlowLint.Proofs.Document.Tree

/-!
Statements and graphs are read again as they are written. The defaults that are written out need
some levels of their own, which a graph in a program always leaves.
-/

namespace FlowLint

open Json (Decoder)
open Json.Decoder

variable {level : Nat}

theorem StaticVariable.keeps {v : StaticVariable} (var : (Node.expr v.var).DoubleFree)
    (initial : ∀ e ∈ v.initial, (Node.expr e).DoubleFree) :
    StaticVariable.decode.Keeps StaticVariable.encode level v := by
  refine .record rfl rfl (by decide) ?_
  intro inner fields _ read
  simp only [bind_eq_some, return_eq_some] at read ⊢
  rcases read with ⟨_, h1, _, h2, rfl⟩
  exact ⟨_, (Expr.keeps var).required h1 rfl,
    _, Expr.keeps_optionalField initial h2 rfl, rfl⟩

namespace StatementForm

theorem keepsCase_values {name : String} {make : List Expr → StatementForm} {f : StatementForm}
    (written : ∀ values, (make values).encode = .case name (.list Expr.encode values))
    (free : ∀ values, make values = f → ∀ e ∈ values, (Node.expr e).DoubleFree) :
    KeepsCase (name, .map make (.list Expr.decode)) encode level f :=
  .map (fun values same => .list fun _ _ e member => Expr.keeps (free values same e member)) written

theorem keeps {f : StatementForm} {span : Option Span}
    (inside : ∀ e ∈ (Statement.mk f span).parts, (Node.expr e).DoubleFree) :
    decode.Keeps encode level f := by
  refine .carrying fun inner _ => ?_
  simp only [List.forall_mem_cons]
  refine ⟨?expression, ?returned, ?yield, ?echo, ?unset, ?staticVariables, ?globals, ?declare,
    nofun⟩
  case expression =>
    refine .map (fun value same => Expr.keeps ?_) fun _ => rfl
    subst same
    exact inside value List.mem_cons_self
  case returned =>
    refine .map (fun value same => .optional Expr.rejects fun e present => Expr.keeps ?_)
      fun _ => rfl
    subst same
    exact inside e (Option.mem_toList.2 present)
  case yield =>
    apply KeepsCase.record (by decide)
    intro _ _ _ read
    simp only [bind_eq_some, return_eq_some] at read ⊢
    rcases read with ⟨key, h1, value, h2, rfl⟩
    simp only [Statement.parts, List.forall_mem_append, Option.mem_toList] at inside
    exact ⟨_, rfl, rfl, _, Expr.keeps_optionalField inside.1 h1 rfl,
      _, Expr.keeps_optionalField inside.2 h2 rfl, rfl⟩
  case echo =>
    refine keepsCase_values (fun _ => rfl) ?_
    intro values same
    subst same
    exact inside
  case unset =>
    refine keepsCase_values (fun _ => rfl) ?_
    intro values same
    subst same
    exact inside
  case staticVariables =>
    refine .map (fun declared same => .list fun _ _ v member => ?_) fun _ => rfl
    subst same
    have insideOne := fun e found => inside e (List.mem_flatMap.2 ⟨v, member, found⟩)
    rw [List.forall_mem_cons] at insideOne
    exact StaticVariable.keeps insideOne.1 fun e present =>
      insideOne.2 e (Option.mem_toList.2 present)
  case globals =>
    refine keepsCase_values (fun _ => rfl) ?_
    intro values same
    subst same
    exact inside
  case declare =>
    apply KeepsCase.record (by decide)
    intro _ _ _ read
    simp only [bind_eq_some, return_eq_some] at read ⊢
    rcases read with ⟨clause, h1, rfl⟩
    exact ⟨_, rfl, rfl, _, clause.keeps.required h1 rfl, rfl⟩

end StatementForm

theorem Statement.keeps {s : Statement} (free : (Node.statement s).DoubleFree) :
    Statement.decode.Keeps Statement.encode level s := by
  have inside : ∀ e ∈ s.parts, (Node.expr e).DoubleFree := fun e member =>
    (Node.doubleFree_iff.1 free).2 _ (List.mem_map_of_mem member)
  refine .record rfl rfl (by decide) ?_
  intro inner fields _ read
  simp only [bind_eq_some, return_eq_some] at read ⊢
  rcases read with ⟨form, h1, span, h2, rfl⟩
  exact ⟨_, (StatementForm.keeps inside).required h1 rfl,
    _, Keeps.optionalField record_rejects (fun s _ => s.keeps) h2 rfl, rfl⟩

theorem CatchHeader.keeps {h : CatchHeader} (free : (Node.header h).DoubleFree) :
    CatchHeader.decode.Keeps CatchHeader.encode level h := by
  obtain ⟨-, children⟩ := Node.doubleFree_iff.1 free
  simp only [Node.children, List.forall_mem_append, List.forall_mem_map, Option.mem_toList]
    at children
  refine .record rfl rfl (by decide) ?_
  intro inner fields _ read
  simp only [bind_eq_some, return_eq_some] at read ⊢
  rcases read with ⟨types, h1, caught, h2, rfl⟩
  have typesKept : (Decoder.list (TypeReference.decode Expr.decode)).Keeps
      (.list (TypeReference.encode Expr.encode)) inner types := by
    refine .list fun _ _ t member => TypeReference.keeps fun value name level => Expr.keeps ?_
    apply (Node.doubleFree_iff.1 (children.1 t member)).2
    simp [Node.children, TypeReference.parts, name, Node.ofPart]
  exact ⟨_, typesKept.required h1 rfl,
    _, Expr.keeps_optionalField children.2 h2 rfl, rfl⟩

theorem BlockKind.keeps {k : BlockKind} (free : ∀ h, k = .handler h → (Node.header h).DoubleFree) :
    BlockKind.decode.Keeps BlockKind.encode level k := by
  refine .choice (fun plain => ?_) fun inner _ => ?_
  · simp only [List.mem_cons, List.not_mem_nil, or_false] at plain
    rcases plain with rfl | rfl | rfl | rfl <;> rfl
  · simp only [List.forall_mem_singleton]
    exact .map (fun h same => CatchHeader.keeps (free h same.symm)) fun _ => rfl

theorem SwitchCase.keeps {c : SwitchCase} (label : ∀ e ∈ c.label, (Node.expr e).DoubleFree) :
    SwitchCase.decode.Keeps SwitchCase.encode level c := by
  refine .record rfl rfl (by decide) ?_
  intro inner fields _ read
  simp only [bind_eq_some, return_eq_some] at read ⊢
  rcases read with ⟨_, h1, target, h2, rfl⟩
  exact ⟨_, Expr.keeps_optionalField label h1 rfl,
    _, (keeps_natural _).required h2 rfl, rfl⟩

theorem TryConstruct.keeps (t : TryConstruct) :
    TryConstruct.decode.Keeps TryConstruct.encode (level + 2) t := by
  refine .record rfl rfl (by decide) ?_
  intro inner fields deep read
  cases deep
  simp only [bind_eq_some, return_eq_some] at read ⊢
  rcases read with ⟨body, h1, handlers, h2, final, h3, next, h4, rfl⟩
  have handlersKept : (Decoder.list .identifier).Keeps (.list .nat) (level + 1) handlers :=
    .list fun _ _ _ _ => keeps_natural _
  exact ⟨_, (keeps_natural _).required h1 rfl,
    _, handlersKept.withDefault rfl h2 rfl,
    _, Keeps.optionalField natural_rejects (fun _ _ => keeps_natural _) h3 rfl,
    _, (keeps_natural _).required h4 rfl, rfl⟩

namespace Edge

theorem keepsCase_target {name : String} {make : Nat → Edge}
    (written : ∀ target, (make target).encode = .case name (.record [("target", .nat target)]))
    (e : Edge) : KeepsCase (name, decodeTarget make) encode level e := by
  apply KeepsCase.record (by decide)
  intro _ _ _ read
  simp only [bind_eq_some, return_eq_some] at read ⊢
  rcases read with ⟨target, h1, rfl⟩
  exact ⟨_, written target, rfl, _, (keeps_natural _).required h1 rfl, rfl⟩

theorem keeps {e : Edge} (free : (Node.edge e).DoubleFree) :
    decode.Keeps encode (level + 3) e := by
  have inside : ∀ value ∈ e.parts, (Node.expr value).DoubleFree := fun value member =>
    (Node.doubleFree_iff.1 free).2 _ (List.mem_map_of_mem member)
  refine .carrying fun inner deep => ?_
  cases deep
  simp only [List.forall_mem_cons]
  refine ⟨keepsCase_target (fun _ => rfl) e, keepsCase_target (fun _ => rfl) e, ?branch, ?select,
    ?foreach, ?foreachNext, .map (fun t _ => t.keeps) fun _ => rfl, nofun⟩
  case branch =>
    apply KeepsCase.record (by decide)
    intro _ _ _ read
    simp only [bind_eq_some, return_eq_some] at read ⊢
    rcases read with ⟨condition, h1, whenTrue, h2, whenFalse, h3, rfl⟩
    exact ⟨_, rfl, rfl, _, (Expr.keeps (inside _ List.mem_cons_self)).required h1 rfl,
      _, (keeps_natural _).required h2 rfl,
      _, (keeps_natural _).required h3 rfl, rfl⟩
  case select =>
    apply KeepsCase.record (by decide)
    intro inner _ _ read
    simp only [bind_eq_some, return_eq_some] at read ⊢
    rcases read with ⟨value, h1, cases, h2, rfl⟩
    rw [parts, List.forall_mem_cons, List.forall_mem_flatMap] at inside
    have casesKept : (Decoder.list SwitchCase.decode).Keeps (.list SwitchCase.encode) inner
        cases := .list fun _ _ c member => SwitchCase.keeps fun label present =>
          inside.2 c member label (Option.mem_toList.2 present)
    exact ⟨_, rfl, rfl, _, (Expr.keeps inside.1).required h1 rfl,
      _, casesKept.required h2 rfl, rfl⟩
  case foreach =>
    apply KeepsCase.record (by decide)
    intro _ _ _ read
    simp only [bind_eq_some, return_eq_some] at read ⊢
    rcases read with ⟨collection, h1, target, h2, rfl⟩
    exact ⟨_, rfl, rfl, _, (Expr.keeps (inside _ List.mem_cons_self)).required h1 rfl,
      _, (keeps_natural _).required h2 rfl, rfl⟩
  case foreachNext =>
    apply KeepsCase.record (by decide)
    intro _ _ _ read
    simp only [bind_eq_some, return_eq_some] at read ⊢
    rcases read with ⟨key, h1, value, h2, body, h3, next, h4, rfl⟩
    simp only [parts, List.forall_mem_append, Option.mem_toList, List.forall_mem_singleton]
      at inside
    exact ⟨_, rfl, rfl, _, Expr.keeps_optionalField inside.1 h1 rfl,
      _, (Expr.keeps inside.2).required h2 rfl,
      _, (keeps_natural _).required h3 rfl,
      _, (keeps_natural _).required h4 rfl, rfl⟩

end Edge

theorem Block.keeps {b : Block} (free : (Node.block b).DoubleFree) :
    Block.decode.Keeps Block.encode (level + 4) b := by
  obtain ⟨-, children⟩ := Node.doubleFree_iff.1 free
  simp only [Node.children, List.forall_mem_append, List.forall_mem_map, Option.mem_toList]
    at children
  obtain ⟨⟨header, statements⟩, edge⟩ := children
  refine .record rfl rfl (by decide) ?_
  intro inner fields deep read
  cases deep
  simp only [bind_eq_some, return_eq_some] at read ⊢
  rcases read with ⟨ordinal, h1, kind, h2, list, h3, leaving, h4, rfl⟩
  have kindFree : ∀ h, kind = .handler h → (Node.header h).DoubleFree := by
    intro h same
    subst same
    exact header _ List.mem_cons_self
  have statementsKept : (Decoder.list Statement.decode).Keeps (.list Statement.encode) (level + 3)
      list := .list fun _ _ s member => Statement.keeps (statements s member)
  exact ⟨_, (keeps_natural _).required h1 rfl,
    _, (BlockKind.keeps kindFree).withDefault choice_text h2 rfl,
    _, statementsKept.withDefault rfl h3 rfl,
    _, Keeps.optionalField carrying_rejects (fun e present => Edge.keeps (edge e present)) h4 rfl,
    rfl⟩

theorem Label.keeps (l : Label) : Label.decode.Keeps Label.encode level l := by
  refine .record rfl rfl (by decide) ?_
  intro inner fields _ read
  simp only [bind_eq_some, return_eq_some] at read ⊢
  rcases read with ⟨name, h1, span, h2, isDefined, h3, isUsed, h4, isRedefined, h5, rfl⟩
  exact ⟨_, (keeps_string _).required h1 rfl,
    _, span.keeps.required h2 rfl,
    _, (keeps_bool _).withDefault rfl h3 rfl,
    _, (keeps_bool _).withDefault rfl h4 rfl,
    _, (keeps_bool _).withDefault rfl h5 rfl, rfl⟩

theorem Graph.keeps {g : Graph} (free : ∀ b ∈ g.blocks, (Node.block b).DoubleFree) :
    Graph.decode.Keeps Graph.encode (level + 6) g := by
  refine .record rfl rfl (by decide) ?_
  intro inner fields deep read
  cases deep
  simp only [bind_eq_some, return_eq_some] at read ⊢
  rcases read with ⟨start, h1, exit, h2, blocks, h3, labels, h4, unreachable, h5, rfl⟩
  have blocksKept : (Decoder.list Block.decode).Keeps (.list Block.encode) (level + 5) blocks := by
    refine .list fun inner deep b member => ?_
    cases deep
    exact Block.keeps (free b member)
  have labelsKept : (Decoder.list Label.decode).Keeps (.list Label.encode) (level + 5) labels :=
    .list fun _ _ l _ => l.keeps
  have unreachableKept : (Decoder.list .identifier).Keeps (.list .nat) (level + 5) unreachable :=
    .list fun _ _ _ _ => keeps_natural _
  exact ⟨_, (keeps_natural _).required h1 rfl,
    _, (keeps_natural _).required h2 rfl,
    _, blocksKept.required h3 rfl,
    _, labelsKept.withDefault rfl h4 rfl,
    _, unreachableKept.withDefault rfl h5 rfl, rfl⟩

end FlowLint
