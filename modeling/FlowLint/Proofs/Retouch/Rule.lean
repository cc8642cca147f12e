import FlowLint.Proofs.Retouch.Graph
import FlowLint.Proofs.Rule.Judgement

/-!
The rules on retouched nodes. If a retouch keeps what the rules look up, each of them makes the same
remarks as before: those that are made only where there is source are lost with it, and all others
lose at most their place.
-/

namespace FlowLint

/-- What a finding is tied to. -/
inductive Anchor where
  | node
  | source
  /-- A place that is always known: a label, a clause or the heading of the routine. -/
  | place
  deriving DecidableEq, Repr

def Finding.anchor : Finding → Anchor
  | uninitializedVariable _ | selfAssignment | redundantCast | parentOfParentless
  | unreachableCode => .source
  | notImplemented feature => if feature = "return from 'finally' block" then .source else .node
  | undefinedLabel _ | redefinedLabel _ | ignored _ | parentConstructorNotCalled _ => .place
  | _ => .node

namespace Retouch

variable (t : Retouch)

/-- What a retouch leaves of a remark. -/
def remark (r : Remark) : Option Remark :=
  match r.finding.anchor with
  | .node => some ⟨t.span r.span, r.finding⟩
  | .source => if t.erases then none else some r
  | .place => some r

theorem span_or (first second : Option Span) :
    t.span (first.or second) = (t.span first).or (t.span second) := by
  unfold span
  cases t.erases <;> rfl

theorem span_map (f : Span → Span) (span : Option Span) :
    t.span (span.map f) = (t.span span).map f := by
  unfold Retouch.span
  cases t.erases <;> rfl

variable {t} {finding : Finding}

theorem remark_node (node : finding.anchor = .node) (span : Option Span) :
    t.remark ⟨span, finding⟩ = some ⟨t.span span, finding⟩ := by
  rw [remark, node]

theorem filterMap_node (node : finding.anchor = .node) (span : Option Span) :
    [(⟨span, finding⟩ : Remark)].filterMap t.remark = [⟨t.span span, finding⟩] := by
  simp [remark_node node]

theorem filterMap_remarkIf (node : finding.anchor = .node) (condition : Bool)
    (span : Option Span) :
    (remarkIf condition span finding).filterMap t.remark =
      remarkIf condition (t.span span) finding := by
  cases condition with
  | false => rfl
  | true => exact filterMap_node node span

theorem filterMap_remarkIf_source (source : finding.anchor = .source) (condition : Bool)
    (span : Option Span) :
    (remarkIf (span.isSome && condition) span finding).filterMap t.remark =
      remarkIf ((t.span span).isSome && condition) (t.span span) finding := by
  cases erases : t.erases with
  | true =>
    cases kept : (span.isSome && condition) <;>
      simp [remarkIf, Retouch.span, erases, remark, source]
  | false =>
    cases kept : (span.isSome && condition) <;>
      simp [remarkIf, Retouch.span, erases, kept, remark, source]

theorem filterMap_place {rs : List Remark} (place : ∀ r ∈ rs, r.finding.anchor = .place) :
    rs.filterMap t.remark = rs := by
  have kept : ∀ r ∈ rs, t.remark r = some r := by
    intro r member
    rw [remark, place r member]
  rw [List.filterMap_congr kept, List.filterMap_some]

/-- The rules find the same under the new targets and references. -/
structure Keeps (t : Retouch) (c : Context) : Prop where
  target? : ∀ target, c.target? (t.target target) = c.target? target
  missingTarget : ∀ target, t.target target = .missing ↔ target = .missing
  type? : ∀ r : TypeReference Expr, c.type? (r.touch t) = c.type? r
  missingType : ∀ resolution, t.resolution resolution = .missing ↔ resolution = .missing
  ambiguousType : ∀ resolution, t.resolution resolution = .ambiguous ↔ resolution = .ambiguous

end Retouch

namespace Context

variable {t : Retouch} {c : Context}

theorem primitiveMisuse_retouch (r : TypeReference Expr) :
    primitiveMisuse (r.retouch t) = (primitiveMisuse r).filterMap t.remark := by
  obtain ⟨name, resolution, span⟩ := r
  cases name with
  | primitive type => exact (Retouch.filterMap_node rfl span).symm
  | _ => rfl

theorem undefinedType_eq (r : TypeReference Expr) :
    undefinedType r =
      match r.name with
      | .named name => remarkIf (r.resolution = .missing) r.span (.undefinedType name)
      | _ => [] := by
  obtain ⟨name, resolution, span⟩ := r
  cases name <;> cases resolution <;> rfl

theorem undefinedType_retouch (keeps : t.Keeps c) (r : TypeReference Expr) :
    undefinedType (r.retouch t) = (undefinedType r).filterMap t.remark := by
  rw [undefinedType_eq, undefinedType_eq]
  obtain ⟨name, resolution, span⟩ := r
  cases name with
  | named name =>
    simp only [TypeReference.retouch, TypeReference.touch, TypeReference.map, TypeName.map,
      keeps.missingType]
    exact (Retouch.filterMap_remarkIf rfl _ _).symm
  | _ => rfl

theorem isParent_retouch (r : TypeReference Expr) : (r.retouch t).isParent = r.isParent := by
  obtain ⟨name, resolution, span⟩ := r
  cases name <;> rfl

theorem parentless_retouch (r : TypeReference Expr) :
    c.parentless (r.retouch t) = (c.parentless r).filterMap t.remark := by
  have reordered (r : TypeReference Expr) : c.parentless r =
      remarkIf (r.span.isSome && (r.isParent && !c.symbol.isGlobalCode &&
        !c.owner.any TypeSymbol.isTrait && !c.owner.any fun type => type.base.isSome))
        r.span .parentOfParentless := by
    rw [parentless]
    congr 1
    ac_rfl
  rw [reordered, reordered, isParent_retouch, Retouch.filterMap_remarkIf_source rfl]
  rfl

theorem type?_retouch (keeps : t.Keeps c) (r : TypeReference Expr) :
    c.type? (r.retouch t) = c.type? r := keeps.type? _

theorem nameCase_retouch (keeps : t.Keeps c) (r : TypeReference Expr) :
    c.nameCase (r.retouch t) = (c.nameCase r).filterMap t.remark := by
  rw [nameCase, nameCase, type?_retouch keeps]
  obtain ⟨name, resolution, span⟩ := r
  cases name with
  | named name =>
    simp only [TypeReference.retouch, TypeReference.touch, TypeReference.map, TypeName.map]
    cases c.type? ⟨.named name, resolution, span⟩ with
    | none => rfl
    | some type => exact (Retouch.filterMap_remarkIf rfl _ _).symm
  | _ => rfl

theorem reference_retouch (keeps : t.Keeps c) (r : TypeReference Expr) :
    c.reference (r.retouch t) = (c.reference r).filterMap t.remark := by
  have ambiguous : (r.retouch t).resolution = .ambiguous ↔ r.resolution = .ambiguous :=
    keeps.ambiguousType _
  unfold reference
  by_cases several : r.resolution = .ambiguous
  · rw [if_pos several, if_pos (ambiguous.2 several)]
    rfl
  · rw [if_neg several, if_neg (mt ambiguous.1 several), undefinedType_retouch keeps,
      parentless_retouch, nameCase_retouch keeps, List.filterMap_append, List.filterMap_append]

theorem instantiation_retouch (keeps : t.Keeps c) (e : Expr) (r : TypeReference Expr) :
    c.instantiation (e.retouch t) (r.retouch t) = (c.instantiation e r).filterMap t.remark := by
  rw [instantiation, instantiation, primitiveMisuse_retouch, type?_retouch keeps,
    Expr.span_retouch, List.filterMap_append]
  cases c.type? r with
  | none => rfl
  | some type =>
    dsimp only
    split
    · rfl
    · rw [Retouch.filterMap_node rfl]
    · rw [Retouch.filterMap_node rfl]
      rfl

end Context

def Judgement.retouch (t : Retouch) : Judgement → Judgement
  | callee span => callee (t.span span)
  | cloned span => cloned (t.span span)
  | cast span target => cast (t.span span) target
  | returned span => returned (t.span span)
  | j => j

def Call.retouch (t : Retouch) (call : Call Expr) : Call Expr := (call.map (Expr.retouch t)).touch t

namespace Context

variable {t : Retouch} {c : Context}

theorem judge_retouch (value : Expr) (j : Judgement) :
    c.judge (value.retouch t) (j.retouch t) = (c.judge value j).filterMap t.remark := by
  cases j with
  | receiver method =>
    have same : c.nonObject? (value.retouch t) = c.nonObject? value := by
      simp [nonObject?]
    simp only [judge, Judgement.retouch, same, Expr.span_retouch]
    cases c.nonObject? value with
    | none => rfl
    | some type => exact (Retouch.filterMap_node rfl _).symm
  | cast span target =>
    simp only [judge, Judgement.retouch, Expr.mask_retouch]
    exact (Retouch.filterMap_remarkIf_source rfl _ _).symm
  | _ =>
    simp only [judge, Judgement.retouch, keyType, iteration, maybeString, Expr.mask_retouch,
      Expr.span_retouch]
    exact (Retouch.filterMap_remarkIf rfl _ _).symm

theorem direct?_map {α β : Type} (f : α → β) (n : Name α) : (n.map f).direct? = n.direct? := by
  cases n <;> rfl

theorem variableUse_retouch (e : Expr) (v : Variable Expr) :
    variableUse (e.retouch t) (v.map (Expr.retouch t)) =
      (variableUse e v).filterMap t.remark := by
  obtain ⟨name, kind, maybe⟩ := v
  simp only [variableUse, Variable.map, Expr.span_retouch, Expr.access_retouch]
  split
  · rfl
  · rw [List.filterMap_append, Retouch.filterMap_remarkIf rfl]
    congr 1
    cases name with
    | direct name =>
      simp only [Name.map, Bool.and_comm _ (Option.isSome _)]
      exact (Retouch.filterMap_remarkIf_source rfl _ _).symm
    | indirect value => rfl

theorem selfAssignment_retouch (e target value : Expr) :
    selfAssignment (e.retouch t) (target.retouch t) (value.retouch t) =
      (selfAssignment e target value).filterMap t.remark := by
  have reordered (first second source direct same : Bool) :
      (first && second && source && direct && same) =
        (source && (first && second && direct && same)) := by ac_rfl
  unfold selfAssignment
  rw [Expr.form_retouch, Expr.form_retouch]
  -- only an assignment of a variable to a variable is looked at
  cases target.form with
  | var v =>
    cases value.form with
    | var w =>
      simp only [Form.map, Form.touch, Expr.span_retouch, Variable.map, direct?_map]
      rw [reordered, reordered, Retouch.filterMap_remarkIf_source rfl]
      rfl
    | _ => rfl
  | _ => rfl

theorem items_retouch (seen : List ArrayKey) (list : List (ArrayItem Expr)) :
    c.items seen (list.map (·.map (Expr.retouch t))) = (c.items seen list).filterMap t.remark := by
  induction list generalizing seen with
  | nil => rfl
  | cons item rest ih =>
    obtain ⟨key, value⟩ := item
    rw [List.map_cons, items_cons, items_cons]
    cases key with
    | none => exact ih seen
    | some key =>
      have judged : c.judge (key.retouch t) .key = (c.judge key .key).filterMap t.remark :=
        judge_retouch key .key
      simp only [ArrayItem.map, Option.map_some, Expr.constant_retouch, Expr.span_retouch,
        List.filterMap_append, judged]
      congr 1
      cases key.constant.bind Constant.arrayKey with
      | none => exact ih seen
      | some k =>
        rw [List.filterMap_append, Retouch.filterMap_remarkIf rfl, Retouch.span_or, ← ih]
        rfl

theorem arrayLiteral_retouch (e : Expr) (list : List (ArrayItem Expr)) :
    c.arrayLiteral (e.retouch t) (list.map (·.map (Expr.retouch t))) =
      (c.arrayLiteral e list).filterMap t.remark := by
  rw [arrayLiteral, arrayLiteral, items_retouch, List.filterMap_append,
    Retouch.filterMap_remarkIf rfl, Expr.access_retouch, Expr.span_retouch]

theorem division_retouch (divisor : Expr) :
    division (divisor.retouch t) = (division divisor).filterMap t.remark := by
  rw [division, division, Retouch.filterMap_remarkIf rfl, Expr.constant_retouch, Expr.span_retouch]

theorem evalUse_retouch (e : Expr) : evalUse (e.retouch t) = (evalUse e).filterMap t.remark := by
  rw [evalUse, evalUse, Retouch.filterMap_node rfl, Expr.span_retouch, Retouch.span_map]

theorem assertion_retouch (e : Expr) (arguments : List (Argument Expr)) :
    c.assertion (e.retouch t) (arguments.map (·.map (Expr.retouch t))) =
      (c.assertion e arguments).filterMap t.remark := by
  cases arguments with
  | nil =>
    rw [List.map_nil, assertion, assertion, Expr.span_retouch, Retouch.filterMap_node rfl]
  | cons first rest =>
    have judged : c.judge (first.value.retouch t) .asserted =
        (c.judge first.value .asserted).filterMap t.remark := judge_retouch first.value .asserted
    simp only [List.map_cons, assertion_cons, List.filterMap_append, judged, Argument.map,
      Expr.constant_retouch, Expr.span_retouch, List.length_cons, List.length_map]
    rw [Retouch.filterMap_remarkIf rfl, Retouch.filterMap_remarkIf rfl]

theorem target?_retouch (keeps : t.Keeps c) (call : Call Expr) :
    c.target? (call.retouch t).target = c.target? call.target := keeps.target? _

theorem missing_retouch (keeps : t.Keeps c) (call : Call Expr) :
    ((call.retouch t).target == .missing) = (call.target == .missing) := by
  rw [Bool.eq_iff_iff, beq_iff_eq, beq_iff_eq]
  exact keeps.missingTarget _

theorem place_retouch (e : Expr) (call : Call Expr) :
    (call.retouch t).nameSpan.or (e.retouch t).span = t.span (call.nameSpan.or e.span) := by
  rw [Retouch.span_or, Expr.span_retouch]
  rfl

theorem deprecation_retouch (keeps : t.Keeps c) (e : Expr) (call : Call Expr) :
    c.deprecation (e.retouch t) (call.retouch t) = (c.deprecation e call).filterMap t.remark := by
  rw [deprecation, deprecation, target?_retouch keeps, Expr.span_retouch]
  cases c.target? call.target with
  | none => rfl
  | some routine =>
    dsimp only
    cases routine.deprecation with
    | none => rfl
    | some message =>
      obtain ⟨callee, _, _, _⟩ := call
      cases callee <;> exact (Retouch.filterMap_node rfl _).symm

theorem formatCount_retouch (e : Expr) (call : Call Expr) (function : String) :
    formatCount (e.retouch t) (call.retouch t) function =
      (formatCount e call function).filterMap t.remark := by
  have given : (call.retouch t).arguments.length = call.arguments.length := List.length_map _
  have format : (call.retouch t).arguments.head?.bind (·.value.constant) =
      call.arguments.head?.bind (·.value.constant) := by
    simp only [Call.retouch, Call.touch, Call.map]
    cases call.arguments with
    | nil => rfl
    | cons first rest => exact Expr.constant_retouch t first.value
  rw [formatCount, formatCount, given, format, Expr.span_retouch]
  split
  · exact (Retouch.filterMap_remarkIf rfl _ _).symm
  · rfl

theorem functionCall_retouch (keeps : t.Keeps c) (e : Expr) (call : Call Expr)
    (name : Name Expr) :
    c.functionCall (e.retouch t) (call.retouch t) (name.map (Expr.retouch t)) =
      (c.functionCall e call name).filterMap t.remark := by
  cases name with
  | direct function =>
    simp only [functionCall, Name.map, List.filterMap_append, missing_retouch keeps, place_retouch,
      deprecation_retouch keeps, formatCount_retouch]
    rw [Retouch.filterMap_remarkIf rfl]
  | indirect callee =>
    rw [Name.map, functionCall_indirect, functionCall_indirect, Expr.span_retouch]
    exact judge_retouch callee (.callee e.span)

theorem methodCall_retouch (keeps : t.Keeps c) (e : Expr) (call : Call Expr) (receiver : Expr)
    (name : Name Expr) :
    c.methodCall (e.retouch t) (call.retouch t) (receiver.retouch t)
        (name.map (Expr.retouch t)) =
      (c.methodCall e call receiver name).filterMap t.remark := by
  have method : methodName (name.map (Expr.retouch t)) = methodName name := by
    rw [methodName, direct?_map, methodName]
  have shown : c.receiverName (receiver.retouch t) = c.receiverName receiver := by
    rw [receiverName, Expr.mask_retouch, receiverName]
  have judged : c.judge (receiver.retouch t) (.receiver (methodName name)) =
      (c.judge receiver (.receiver (methodName name))).filterMap t.remark :=
    judge_retouch receiver (.receiver _)
  rw [methodCall_eq, methodCall_eq, method, shown, judged, deprecation_retouch keeps,
    missing_retouch keeps, place_retouch, List.filterMap_append, List.filterMap_append,
    Retouch.filterMap_remarkIf rfl]

theorem text_retouch (r : TypeReference Expr) : (r.retouch t).text = r.text := by
  obtain ⟨name, resolution, span⟩ := r
  cases name <;> rfl

theorem abstractCall_retouch (keeps : t.Keeps c) (e : Expr) (call : Call Expr)
    (name : Name Expr) :
    c.abstractCall (e.retouch t) (call.retouch t) (name.map (Expr.retouch t)) =
      (c.abstractCall e call name).filterMap t.remark := by
  rw [abstractCall, abstractCall, target?_retouch keeps, direct?_map, Expr.span_retouch]
  cases c.target? call.target with
  | none => rfl
  | some routine => exact (Retouch.filterMap_remarkIf rfl _ _).symm

theorem staticCall_retouch (keeps : t.Keeps c) (e : Expr) (call : Call Expr)
    (r : TypeReference Expr) (name : Name Expr) :
    c.staticCall (e.retouch t) (call.retouch t) (r.retouch t) (name.map (Expr.retouch t)) =
      (c.staticCall e call r name).filterMap t.remark := by
  simp only [staticCall, primitiveMisuse_retouch, type?_retouch keeps, text_retouch, methodName,
    direct?_map, missing_retouch keeps, place_retouch, deprecation_retouch keeps,
    abstractCall_retouch keeps, List.filterMap_append]
  rw [Retouch.filterMap_remarkIf rfl]

theorem callee_retouch (keeps : t.Keeps c) (e : Expr) (call : Call Expr) :
    c.callee (e.retouch t) (call.retouch t) = (c.callee e call).filterMap t.remark := by
  obtain ⟨callee, target, arguments, nameSpan⟩ := call
  cases callee with
  | function name => exact functionCall_retouch keeps e _ name
  | method receiver name => exact methodCall_retouch keeps e _ receiver name
  | static r name => exact staticCall_retouch keeps e _ r name
  | new r => exact instantiation_retouch keeps e r

theorem argumentCount_retouch (keeps : t.Keeps c) (e : Expr) (call : Call Expr) :
    c.argumentCount (e.retouch t) (call.retouch t) =
      (c.argumentCount e call).filterMap t.remark := by
  have unpacks : (call.retouch t).unpacks = call.unpacks := by
    simp [Call.unpacks, Call.retouch, Call.touch, Call.map, Argument.map, Function.comp_def]
  have given : (call.retouch t).arguments.length = call.arguments.length := List.length_map _
  have name (target : RoutineSymbol) : c.calledName (call.retouch t).callee target =
      c.calledName call.callee target := by
    obtain ⟨callee, _, _, _⟩ := call
    cases callee <;> rfl
  simp only [argumentCount, unpacks, given, name, target?_retouch keeps, Expr.span_retouch]
  split
  · rfl
  · split
    · rfl
    · split
      · exact (Retouch.filterMap_node rfl _).symm
      · split
        · rfl
        · exact (Retouch.filterMap_remarkIf rfl _ _).symm

theorem enterExpr_retouch (keeps : t.Keeps c) (e : Expr) :
    c.enterExpr (e.retouch t) = (c.enterExpr e).filterMap t.remark := by
  unfold enterExpr
  rw [Expr.form_retouch]
  cases e.form with
  | var v => exact variableUse_retouch e v
  | assign target value => exact selfAssignment_retouch e target value
  | array list => exact arrayLiteral_retouch e list
  | eval code => exact evalUse_retouch e
  | call call => exact callee_retouch keeps e call
  | instanceOf operand r => exact primitiveMisuse_retouch r
  | field f =>
    obtain ⟨receiver, r, name, kind⟩ := f
    cases r with
    | none => rfl
    | some r =>
      simp only [Form.map, Form.touch, FieldAccess.map, FieldAccess.touch, Option.map_some,
        Option.toList_some, List.flatMap_singleton]
      exact primitiveMisuse_retouch r
  | _ => rfl

theorem leaveExpr_retouch (keeps : t.Keeps c) (e : Expr) :
    c.leaveExpr (e.retouch t) = (c.leaveExpr e).filterMap t.remark := by
  have span := e.span_retouch t
  unfold leaveExpr
  rw [Expr.form_retouch]
  cases e.form with
  | binary op left right =>
    cases op with
    | div => exact division_retouch right
    | _ => rfl
  | unary op operand =>
    cases op with
    | clone =>
      simp only [Form.map, Form.touch, clone_eq, span]
      exact judge_retouch operand (.cloned e.span)
    | _ => rfl
  | conversion target operand implicit =>
    cases implicit with
    | true => rfl
    | false =>
      simp only [Form.map, Form.touch, redundantCast_eq, span]
      exact judge_retouch operand (.cast e.span target)
  | assert arguments => exact assertion_retouch e arguments
  | call call => exact argumentCount_retouch keeps e call
  | _ => rfl

theorem statement_retouch (around : Surroundings) (s : Statement) :
    c.statement around (s.retouch t) = (c.statement around s).filterMap t.remark := by
  obtain ⟨form, span⟩ := s
  cases form with
  | «return» value =>
    have converted : (value.map (Expr.retouch t)).elim
        (remarkIf c.symbol.isToString (t.span span) c.notAString)
        (c.judge · (.returned (t.span span))) =
          (value.elim (remarkIf c.symbol.isToString span c.notAString)
            (c.judge · (.returned span))).filterMap t.remark := by
      cases value with
      | none => exact (Retouch.filterMap_remarkIf rfl _ _).symm
      | some value => exact judge_retouch value (.returned span)
    have final : (Finding.notImplemented "return from 'finally' block").anchor = .source := by
      simp [Finding.anchor]
    simp only [statement, Statement.retouch, StatementForm.retouch, returnStatement_eq, converted,
      List.filterMap_append, Option.isSome_map]
    rw [Retouch.filterMap_remarkIf rfl, Retouch.filterMap_remarkIf_source final]
  | yield key value =>
    have guarded : (Finding.notImplemented
        "yielding from an exception handling construct (try, catch, finally)").anchor = .node := by
      simp [Finding.anchor]
    exact (Retouch.filterMap_remarkIf guarded _ _).symm
  | _ => rfl

theorem enter_retouch (keeps : t.Keeps c) (around : Surroundings) (n : Node) :
    c.enter around (n.retouch t) = (c.enter around n).filterMap t.remark := by
  cases n with
  | header h =>
    simp only [enter, Node.retouch, CatchHeader.retouch, List.flatMap_map, List.filterMap_flatMap,
      primitiveMisuse_retouch]
  | statement s => exact statement_retouch around s
  | expr e => exact enterExpr_retouch keeps e
  | type r => exact reference_retouch keeps r
  | _ => rfl

theorem leave_retouch (keeps : t.Keeps c) (n : Node) :
    c.leave (n.retouch t) = (c.leave n).filterMap t.remark := by
  cases n with
  | expr e => exact leaveExpr_retouch keeps e
  | edge e =>
    cases e with
    | «foreach» collection target => exact judge_retouch collection .iterated
    | _ => rfl
  | _ => rfl

theorem remarks_retouch (keeps : t.Keeps c) (around : Surroundings) (n : Node) :
    c.remarks around (n.retouch t) = (c.remarks around n).filterMap t.remark := by
  have step (s : Step) : c.step around (s.retouch t) = (c.step around s).filterMap t.remark := by
    cases s with
    | enter n => exact enter_retouch keeps around n
    | leave n => exact leave_retouch keeps n
  rw [remarks, remarks, Node.visit_retouch, List.flatMap_map, List.filterMap_flatMap]
  exact List.flatMap_congr fun s _ => step s

end Context

theorem Node.isParentCall_retouch (t : Retouch) (n : Node) :
    (n.retouch t).isParentCall = n.isParentCall := by
  cases n with
  | expr e =>
    simp only [Node.isParentCall, Node.retouch, Expr.form_retouch]
    cases e.form with
    | call call =>
      obtain ⟨callee, target, arguments, nameSpan⟩ := call
      cases callee with
      | static r name =>
        cases name with
        | direct text =>
          exact congrArg (· && _) (Context.isParent_retouch r)
        | indirect value => rfl
      | _ => rfl
    | _ => rfl
  | _ => rfl

namespace Context

variable {t : Retouch} {c : Context} {g : Graph}

theorem walk_found_retouch (keeps : t.Keeps c) (sound : g.Sound) :
    (c.walk (g.retouch t)).found = (c.walk g).found.filterMap t.remark := by
  apply (g.follows_retouch t).walk_found sound c
    (T := fun rs rs' => rs' = rs.filterMap t.remark) rfl
  · rintro first _ second _ rfl rfl
    exact List.filterMap_append.symm
  · rintro b _ - rfl around
    exact remarks_retouch keeps around (.block b)

theorem walk_callsParent_retouch (sound : g.Sound) :
    (c.walk (g.retouch t)).callsParent = (c.walk g).callsParent := by
  apply (g.follows_retouch t).walk_callsParent sound c
  rintro b _ - rfl
  rw [Block.entered_retouch, List.any_map]
  simp only [Function.comp_def, Node.isParentCall_retouch]

theorem sourceOf_retouch (sound : g.Sound) (id : Nat) :
    sourceOf (g.retouch t) id = t.span (sourceOf g id) := by
  have blocks : Option.Rel (fun b b' => b' = b.retouch t) (g.block? id) ((g.retouch t).block? id) :=
    (g.follows_retouch t).block? sound.sorted fun _ _ same => same
  have spans (l : List Statement) : Span.joinAll ((l.map (·.retouch t)).filterMap (·.span)) =
      t.span (Span.joinAll (l.filterMap (·.span))) := by
    rw [List.filterMap_map]
    cases erases : t.erases <;>
      simp [Statement.retouch, Retouch.span, erases, Span.joinAll]
  unfold sourceOf
  generalize g.block? id = block, (g.retouch t).block? id = block' at blocks
  cases blocks with
  | none => exact (ite_self none).symm
  | @some b _ same =>
    rw [same]
    exact spans b.statements

theorem unreachableCode_retouch (sound : g.Sound) :
    unreachableCode (g.retouch t) = (unreachableCode g).filterMap t.remark := by
  have place (source : Option Span) :
      (source.map fun span => (⟨some span, .unreachableCode⟩ : Remark)).bind t.remark =
        (t.span source).map fun span => ⟨some span, .unreachableCode⟩ := by
    cases source <;> cases erases : t.erases <;>
      simp [Retouch.span, Retouch.remark, Finding.anchor, erases]
  rw [unreachableCode, unreachableCode, List.filterMap_filterMap]
  simp only [place, sourceOf_retouch sound]
  rfl

theorem routine_retouch (keeps : t.Keeps c) (sound : g.Sound) :
    c.routine (g.retouch t) = (c.routine g).filterMap t.remark := by
  have parent : (c.parentConstructor (c.walk g).callsParent).filterMap t.remark =
      c.parentConstructor (c.walk g).callsParent := by
    refine Retouch.filterMap_place fun r member => ?_
    rw [(mem_remarkIf.1 member).2]
    rfl
  have labelled : (labels g.labels).filterMap t.remark = labels g.labels := by
    refine Retouch.filterMap_place fun r member => ?_
    obtain ⟨l, -, here⟩ := List.mem_flatMap.1 member
    rcases List.mem_append.1 here with undefined | redefined
    · rw [(mem_remarkIf.1 undefined).2]
      rfl
    · rw [(mem_remarkIf.1 redefined).2]
      rfl
  rw [routine, routine, walk_found_retouch keeps sound, walk_callsParent_retouch sound,
    unreachableCode_retouch sound, List.filterMap_append, List.filterMap_append,
    List.filterMap_append, parent, labelled]
  rfl

end Context

end FlowLint
