import FlowLint.Proofs.Pool
import FlowLint.Proofs.Remark

/-!
Programs in which no type is known: every mask selects all slots or belongs to a value that is held
by reference, and the host tells nothing of how values are stored. The rules on types are silent
about them, but for a conversion method that returns nothing at all, and for assertions about values
that are held by reference.
-/

namespace FlowLint

def Expr.Untyped (e : Expr) : Prop := e.mask.isDecidable = false ∧ e.hostType = none

/-- Nothing in the graph has a type that is known, whether control can reach it or not. -/
def Graph.Untyped (g : Graph) : Prop :=
  ∀ b ∈ g.blocks, ∀ e, .expr e ∈ (Node.block b).entered → e.Untyped

def Graph.Asserts (g : Graph) (value : Expr) : Prop := ∃ n ∈ g.entered, n.asserted? = some value

namespace Graph

variable {g : Graph}

theorem Untyped.child (untyped : g.Untyped) (sound : g.Sound) {n : Node} (inside : n ∈ g.entered)
    {value : Expr} (child : .expr value ∈ n.children) : value.Untyped := by
  obtain ⟨b, reached, within⟩ := List.mem_flatMap.1 inside
  have listed := ((mem_reachableBlocks_iff sound.sorted).1 reached).1
  exact untyped b listed value (Node.child_mem_entered within child)

/-- If no type is known, judgements are made on assertions only. -/
theorem Untyped.judge_within (untyped : g.Untyped) (sound : g.Sound) (c : Context)
    {codes : List String} (asserted : "W0216" ∈ codes) {n : Node} (inside : n ∈ g.entered)
    {value : Expr} {j : Judgement} (judges : n.Judges value j) :
    Within codes (c.judge value j) := by
  by_cases same : j = .asserted
  · subst same
    exact Within.judge asserted
  · obtain ⟨undecidable, unstored⟩ := untyped.child sound inside judges.1
    rw [c.judge_of_undecidable undecidable same fun _ _ => unstored]
    exact Within.nil

end Graph

namespace Statement

def returnsNothing (s : Statement) : Bool :=
  match s.form with
  | .return none => true
  | _ => false

end Statement

/-- The codes of the rules on types, apart from those on assertions and on returns. -/
def typeCodes : List String := ["W0203", "W0217", "W0219", "W0220", "E0111", "I0302"]

theorem Context.filter_statement_unconverted (c : Context) (around : Surroundings) {s : Statement}
    (untyped : ∀ value ∈ s.parts, value.Untyped) :
    ((c.statement around s).filter fun r => r.finding.code = "W0207") =
      remarkIf (c.symbol.isToString && s.returnsNothing) s.span c.notAString := by
  obtain ⟨form, span⟩ := s
  cases form with
  | «return» value =>
    have judged : value.elim (remarkIf c.symbol.isToString span c.notAString)
        (c.judge · (.returned span)) =
          remarkIf (c.symbol.isToString && value.isNone) span c.notAString := by
      cases value with
      | none => simp
      | some value =>
        obtain ⟨undecidable, unstored⟩ := untyped value (List.mem_singleton.2 rfl)
        simpa using
          c.judge_of_undecidable (j := .returned span) undecidable (by simp) fun _ _ => unstored
    have converted : c.notAString.code = "W0207" := rfl
    change (c.returnStatement around ⟨.return value, span⟩ value).filter _ = _
    rw [returnStatement_eq, judged]
    cases value <;>
      simp [filter_remarkIf, converted, Statement.returnsNothing] <;> simp [Finding.code]
  | yield key value =>
    simp [statement, yieldStatement, filter_remarkIf, Statement.returnsNothing]
    simp [Finding.code]
  | declare clause =>
    simp [statement, declareStatement, Statement.returnsNothing, Finding.code]
  | _ => simp [statement, Statement.returnsNothing]

namespace Routine

variable {symbols : SymbolTable} {r : Routine} {g : Graph} {symbol : RoutineSymbol}

theorem no_typeCode (sound : g.Sound) (untyped : g.Untyped) (body : r.graph = some g)
    (declared : symbols.routine? r.symbol = some symbol) :
    ∀ d ∈ r.diagnostics symbols, d.code ∉ typeCodes := by
  have other : ∀ code ∈ expressionCodes ++ statementCodes ++ routineCodes ++ ["W0216"],
      code ∉ typeCodes := by decide
  have known := diagnostics_within body declared (Context.routine_within _
    (expressionCodes ++ statementCodes ++ routineCodes ++ ["W0216"]) (by decide) (by decide)
    (by decide)
    fun _ inside _ _ judges => untyped.judge_within sound _ (by decide) inside judges)
  exact fun d member => other _ (known d member)

theorem filter_unconverted (sound : g.Sound) (untyped : g.Untyped) (body : r.graph = some g)
    (declared : symbols.routine? r.symbol = some symbol) :
    ((r.diagnostics symbols).filter fun d => d.code = "W0207") =
      (g.reached fun _ => True).flatMap fun b =>
        (b.statements.filter fun s => symbol.isToString && s.returnsNothing).map fun s =>
          ⟨r.symbol, s.span.getD symbol.heading, (r.context symbols symbol).notAString⟩ := by
  refine filter_diagnostics (expressionCodes ++ routineCodes ++ ["W0216"])
    (fun f => f.code = "W0207") (fun _ => true) sound body declared (by decide)
    (by decide) (fun _ inside _ _ judges => untyped.judge_within sound _ (by decide) inside judges)
    (fun f same => by rw [of_decide_eq_true same]; decide) (fun _ => by simp) ?_
  intro b reached s member
  rw [Bool.and_true]
  refine Context.filter_statement_unconverted _ _ fun value part => ?_
  exact untyped.child sound (Graph.statement_mem_entered reached member)
    (List.mem_map.2 ⟨value, part, rfl⟩)

/-- Assertions are objected to exactly if one of them is about a value whose mask selects a string,
by reference or not. -/
theorem exists_assertionOfString_iff (body : r.graph = some g)
    (declared : symbols.routine? r.symbol = some symbol) :
    (∃ d ∈ r.diagnostics symbols, d.code = "W0216") ↔
      ∃ value, g.Asserts value ∧ r.registry.hasString value.mask = true := by
  constructor
  · rintro ⟨d, member, code⟩
    by_contra none
    push Not at none
    have known : d.code ∈
        expressionCodes ++ statementCodes ++ routineCodes ++ ("W0207" :: typeCodes) := by
      refine diagnostics_within body declared (Context.routine_within _ _ (by decide)
        (by decide) (by decide) ?_) d member
      intro n inside value j judges
      -- without a string among them, values that are asserted are not objected to
      by_cases same : j = .asserted
      · subst same
        have silent : (r.context symbols symbol).registry.hasString value.mask = false :=
          Bool.eq_false_iff.2 (none value ⟨n, inside, judges.2 rfl⟩)
        rw [Context.judge, silent]
        exact Within.nil
      · exact Within.judge (by cases j <;> simp [Judgement.code, typeCodes] at same ⊢)
    rw [code] at known
    revert known
    decide
  · rintro ⟨value, ⟨n, inside, asserted⟩, string⟩
    obtain ⟨e, first, rest, rfl, form, rfl⟩ := Node.asserted?_eq_some_iff.1 asserted
    let c := r.context symbols symbol
    have leaving : ⟨first.value.span, .assertionOfString⟩ ∈ c.leave (.expr e) := by
      rw [Context.leave, Context.leaveExpr, form]
      refine List.mem_append_left _ (List.mem_append_right _ ?_)
      exact mem_remarkIf.2 ⟨string, rfl⟩
    exact ⟨_, r.mem_diagnostics_of_node body declared inside (.inr leaving), rfl⟩

end Routine

namespace Program

variable {p : Program} {s : Sink}

def Untyped (p : Program) : Prop := ∀ r ∈ p.routines, ∀ g, r.graph = some g → g.Untyped

theorem Yields.mem_all {d : Diagnostic} (valid : p.Valid) (yields : p.Yields s)
    (member : d ∈ s.all) : ∃ r ∈ p.routines, d ∈ r.diagnostics p.symbols :=
  (yields.mem_all_iff valid).1 member

/-- If no type is known, no rule on types has anything to say, with two exceptions: a conversion
method is told of each return without a value, and a routine of its assertions if one that control
can reach is about a value that is held by reference and may be a string. -/
theorem untyped_exact (valid : p.defect? = none) (untyped : p.Untyped) (yields : p.Yields s) :
    (∀ d ∈ s.all, d.code ∉ typeCodes) ∧
      ∀ r ∈ p.routines, ∀ g, r.graph = some g →
        ∃ symbol, p.symbols.routine? r.symbol = some symbol ∧
          ((s.all.filter fun d => d.routine == r.symbol).filter fun d => d.code = "W0207") =
            ((g.reached fun _ => True).flatMap fun b =>
              (b.statements.filter fun s => symbol.isToString && s.returnsNothing).map fun s =>
                ⟨r.symbol, s.span.getD symbol.heading, (r.context p.symbols symbol).notAString⟩) ∧
          ((∃ d ∈ s.all, d.routine = r.symbol ∧ d.code = "W0216") ↔
            ∃ value, g.Asserts value ∧ value.mask.isRef = true ∧
              r.registry.hasString value.mask = true) := by
  rw [defect?_eq_none_iff] at valid
  refine ⟨fun d member => ?_, fun r listed g body => ?_⟩
  · obtain ⟨r, listed, made⟩ := yields.mem_all valid member
    obtain ⟨symbol, declared⟩ := valid.declared r listed
    cases body : r.graph with
    | none =>
      rw [diagnostics_of_no_graph body] at made
      cases made
    | some g =>
      exact Routine.no_typeCode (valid.sound r listed g body) (untyped r listed g body) body
        declared d made
  · obtain ⟨symbol, declared⟩ := valid.declared r listed
    have sound := valid.sound r listed g body
    have own := yields.filter_routine valid listed
    refine ⟨symbol, declared, ?_, ?_⟩
    · rw [own]
      exact Routine.filter_unconverted sound (untyped r listed g body) body declared
    · have attributed : (∃ d ∈ s.all, d.routine = r.symbol ∧ d.code = "W0216") ↔
          ∃ d ∈ r.diagnostics p.symbols, d.code = "W0216" := by
        simp only [← own, List.mem_filter, beq_iff_eq, and_assoc]
      rw [attributed, Routine.exists_assertionOfString_iff body declared]
      refine exists_congr fun value => and_congr_right fun asserts => ?_
      -- what cannot be relied on is any value or held by reference, and any value is no string
      have aliased (string : r.registry.hasString value.mask = true) : value.mask.isRef = true := by
        obtain ⟨n, inside, asserted⟩ := asserts
        have undecidable := ((untyped r listed g body).child sound inside
          (Node.judges_asserted asserted).1).1
        by_contra owned
        have any : value.mask.isAny = true := by simpa [Mask.isDecidable, owned] using undecidable
        rw [r.registry.hasString_of_isAny any] at string
        cases string
      exact ⟨fun string => ⟨aliased string, string⟩, And.right⟩

/-- A string that may change under another name. -/
def aliasedText : Expr :=
  ⟨.var ⟨.direct "text", .ordinary, false⟩, some ⟨12, 17⟩, (Mask.ofSlot 0).withRef,
    ⟨true, false, false, false⟩, none, none⟩

def textAssertion : Expr :=
  ⟨.assert [⟨aliasedText, false⟩], some ⟨5, 18⟩, .any, ⟨true, false, false, false⟩, none, none⟩

/-- Asserts the text and returns nothing. -/
def assertingText : Graph :=
  { start := 0
    exit := 1
    blocks :=
      [⟨0, .start, [⟨.expression textAssertion, none⟩, ⟨.return none, some ⟨20, 26⟩⟩],
         some (.jump 1)⟩,
       ⟨1, .exit, [], none⟩]
    labels := []
    unreachable := [] }

def conversionMethod : RoutineSymbol :=
  ⟨"__tostring", .method, none, [], false, false, none, none, ⟨0, 4⟩⟩

def textConversion : Program :=
  { symbols := ⟨[], [conversionMethod]⟩
    routines := [⟨0, some assertingText, .ofList [.string]⟩] }

theorem textConversion_valid : textConversion.Valid where
  declared := by simp [textConversion, SymbolTable.routine?]
  distinct := by decide
  sound := by
    intro r member g body
    obtain rfl := List.mem_singleton.1 member
    obtain rfl := Option.some.inj body
    constructor
    · unfold Ascending
      decide
    · decide

theorem textConversion_untyped : textConversion.Untyped := by
  intro r member g body b block e inside
  obtain rfl := List.mem_singleton.1 member
  obtain rfl := Option.some.inj body
  have one : e = textAssertion ∨ e = aliasedText := by
    simp only [assertingText, List.mem_cons, List.not_mem_nil, or_false] at block
    rcases block with rfl | rfl
    · simpa [Node.entered_eq, Node.children, Statement.parts, Edge.parts, textAssertion,
        aliasedText, Form.parts, Node.ofPart, Name.parts] using inside
    · simp [Node.entered_eq, Node.children] at inside
  rcases one with rfl | rfl
  · exact ⟨by decide, rfl⟩
  · exact ⟨by decide, rfl⟩

theorem assertingText_asserts : assertingText.Asserts aliasedText := by
  have sorted : Ascending assertingText.blocks := by
    unfold Ascending
    decide
  have begins : assertingText.blocks[0] ∈ assertingText.reachableBlocks :=
    (Graph.mem_reachableBlocks_iff sorted).2 ⟨List.mem_cons_self, .refl⟩
  have first : .statement ⟨.expression textAssertion, none⟩ ∈ assertingText.entered :=
    Graph.statement_mem_entered begins List.mem_cons_self
  exact ⟨.expr textAssertion, Graph.child_mem_entered first List.mem_cons_self, rfl⟩

theorem aliasedText_hasString : (Registry.ofList [.string]).hasString aliasedText.mask = true := by
  decide

theorem textConversion_found :
    textConversion.defect? = none ∧ textConversion.Untyped ∧
      ⟨0, ⟨20, 26⟩, .toStringWithoutString "__tostring"⟩ ∈ textConversion.analyze.all ∧
      ∃ d ∈ textConversion.analyze.all, d.code = "W0216" := by
  have valid := defect?_eq_none_iff.2 textConversion_valid
  obtain ⟨-, each⟩ := untyped_exact valid textConversion_untyped (yields_analyze _)
  obtain ⟨symbol, declared, converted, asserted⟩ :=
    each _ (List.mem_singleton.2 rfl) assertingText rfl
  refine ⟨valid, textConversion_untyped, ?_, ?_⟩
  · have among : (⟨0, ⟨20, 26⟩, .toStringWithoutString "__tostring"⟩ : Diagnostic) ∈
        (textConversion.analyze.all.filter fun d => d.routine == 0).filter
          fun d => d.code = "W0207" := by
      rw [converted]
      obtain rfl := Option.some.inj declared
      refine List.mem_flatMap.2 ⟨assertingText.blocks[0], Graph.mem_reached_iff.2
        ⟨List.mem_cons_self, .refl, trivial⟩, ?_⟩
      refine List.mem_map.2 ⟨⟨.return none, some ⟨20, 26⟩⟩, List.mem_filter.2 ⟨?_, ?_⟩, rfl⟩
      · simp [assertingText]
      · have method : conversionMethod.isToString = true := by
          simp [conversionMethod, RoutineSymbol.isToString, Text.sameIgnoringCase]
        simp [method, Statement.returnsNothing]
    exact List.mem_of_mem_filter (List.mem_of_mem_filter among)
  · obtain ⟨d, member, -, code⟩ := asserted.2
      ⟨aliasedText, assertingText_asserts, by decide, aliasedText_hasString⟩
    exact ⟨d, member, code⟩

/-- Programs in which no type is known are not spared all objections to assertions. -/
theorem untyped_objected :
    ¬ ∀ (p : Program) (s : Sink), p.defect? = none → p.Untyped → p.Yields s →
      ∀ d ∈ s.all, d.code ∉ "W0216" :: typeCodes := by
  intro silent
  let r : Routine := ⟨0, some assertingText, .ofList [.string]⟩
  have objected : ∃ d ∈ r.diagnostics textConversion.symbols, d.code = "W0216" :=
    (Routine.exists_assertionOfString_iff rfl rfl).2
      ⟨aliasedText, assertingText_asserts, aliasedText_hasString⟩
  obtain ⟨d, made, code⟩ := objected
  have member : d ∈ textConversion.analyze.all := by
    rw [(yields_analyze _).all_eq textConversion_valid]
    exact List.mem_flatMap.2 ⟨_, List.mem_mergeSort.2 List.mem_cons_self, made⟩
  refine silent textConversion _ (defect?_eq_none_iff.2 textConversion_valid)
    textConversion_untyped (yields_analyze _) d member ?_
  rw [code]
  exact List.mem_cons_self

end Program

end FlowLint
