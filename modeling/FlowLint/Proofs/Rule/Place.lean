import FlowLint.Proofs.Rule.Judgement
import FlowLint.Rule.Step

/-!
Where rules point. Whatever place a rule chooses, and whatever it falls back on, it is a span of the
node that it looks at or of a child of that node. The one exception is the rule on `eval`, which
points at the keyword only.
-/

namespace FlowLint

/-- The spans of a node by itself. -/
def Node.spans : Node → List Span
  | statement s =>
    s.span.toList ++
      match s.form with
      | .declare clause => [clause]
      | _ => []
  | expr e =>
    e.span.toList ++
      match e.form with
      | .call call => call.nameSpan.toList
      | _ => []
  | type t => t.span.toList
  | _ => []

theorem Node.mem_spans_of_statement {s : Statement} {t : Span} (span : s.span = some t) :
    t ∈ (statement s).spans :=
  List.mem_append_left _ (Option.mem_toList.2 span)

theorem Node.mem_spans_of_expr {e : Expr} {t : Span} (span : e.span = some t) :
    t ∈ (expr e).spans :=
  List.mem_append_left _ (Option.mem_toList.2 span)

/-- The span is one of the places, if there is one. -/
def Fits (place : Span → Prop) (span : Option Span) : Prop := ∀ t, span = some t → place t

/-- All remarks are at one of the places, if anywhere, and none of them is about `eval`. -/
def PointsAt (place : Span → Prop) (rs : List Remark) : Prop :=
  ∀ r ∈ rs, r.finding ≠ .evalUsed ∧ Fits place r.span

variable {place : Span → Prop}

theorem Fits.or {first second : Option Span} (left : Fits place first)
    (right : Fits place second) : Fits place (first.or second) := by
  cases first with
  | some span => exact left
  | none => exact right

namespace PointsAt

theorem nil : PointsAt place [] := List.forall_mem_nil _

theorem append {first second : List Remark} (left : PointsAt place first)
    (right : PointsAt place second) : PointsAt place (first ++ second) :=
  List.forall_mem_append.2 ⟨left, right⟩

theorem singleton {span : Option Span} {finding : Finding} (other : finding ≠ .evalUsed)
    (fits : Fits place span) : PointsAt place [⟨span, finding⟩] :=
  List.forall_mem_singleton.2 ⟨other, fits⟩

theorem remarkIf {condition : Bool} {span : Option Span} {finding : Finding}
    (other : finding ≠ .evalUsed) (fits : Fits place span) :
    PointsAt place (remarkIf condition span finding) := by
  cases condition with
  | false => exact nil
  | true => exact singleton other fits

theorem flatMap {α : Type} {f : α → List Remark} {l : List α}
    (each : ∀ a ∈ l, PointsAt place (f a)) : PointsAt place (l.flatMap f) := by
  intro r member
  obtain ⟨a, present, inside⟩ := List.mem_flatMap.1 member
  exact each a present r inside

end PointsAt

namespace Context

variable (c : Context)

theorem primitiveMisuse_pointsAt {t : TypeReference Expr} (own : Fits place t.span) :
    PointsAt place (primitiveMisuse t) := by
  unfold primitiveMisuse
  split
  · exact PointsAt.singleton (by simp) own
  · exact PointsAt.nil

theorem reference_pointsAt {t : TypeReference Expr} (own : Fits place t.span) :
    PointsAt place (c.reference t) := by
  have undefined : PointsAt place (undefinedType t) := by
    unfold undefinedType
    split
    · exact PointsAt.singleton (by simp) own
    · exact PointsAt.nil
  have parent : PointsAt place (c.parentless t) := PointsAt.remarkIf (by simp) own
  have spelling : PointsAt place (c.nameCase t) := by
    unfold nameCase
    split
    · exact PointsAt.remarkIf (by simp) own
    · exact PointsAt.nil
  unfold reference
  split
  · exact PointsAt.nil
  · exact (undefined.append parent).append spelling

theorem instantiation_pointsAt {e : Expr} {t : TypeReference Expr} (own : Fits place e.span)
    (type : Fits place t.span) : PointsAt place (c.instantiation e t) := by
  refine (primitiveMisuse_pointsAt type).append ?_
  split
  · exact PointsAt.nil
  · split
    · exact PointsAt.nil
    · exact PointsAt.singleton (by simp) own
    · exact PointsAt.singleton (by simp) type

section Calls

variable {e : Expr} {call : Call Expr}

theorem deprecation_pointsAt (own : Fits place e.span) : PointsAt place (c.deprecation e call) := by
  unfold deprecation
  split
  · exact PointsAt.nil
  · split
    · exact PointsAt.nil
    · exact PointsAt.singleton (by simp) own

theorem missing_pointsAt (own : Fits place e.span) (called : Fits place call.nameSpan) {f : Finding}
    (other : f ≠ .evalUsed) :
    PointsAt place (remarkIf (call.target == .missing) (call.nameSpan.or e.span) f) :=
  PointsAt.remarkIf other (called.or own)

theorem functionCall_pointsAt (own : Fits place e.span) (called : Fits place call.nameSpan)
    (name : Name Expr) : PointsAt place (c.functionCall e call name) := by
  cases name with
  | direct function =>
    have format : PointsAt place (formatCount e call function) := by
      unfold formatCount
      split
      · exact PointsAt.remarkIf (by simp) own
      · exact PointsAt.nil
    have deprecated : PointsAt place (c.deprecation e call) := c.deprecation_pointsAt own
    exact ((missing_pointsAt own called (by simp)).append deprecated).append format
  | indirect callee => exact PointsAt.remarkIf (by simp) own

theorem methodCall_pointsAt {receiver : Expr} (own : Fits place e.span)
    (called : Fits place call.nameSpan) (part : Fits place receiver.span) (name : Name Expr) :
    PointsAt place (c.methodCall e call receiver name) := by
  have stored : PointsAt place ((c.nonObject? receiver).toList.map fun type =>
      ⟨receiver.span, .methodOfNonObject (methodName name) type⟩) := by
    rw [List.map_eq_flatMap]
    exact PointsAt.flatMap fun type _ => PointsAt.singleton (by simp) part
  exact (stored.append (c.deprecation_pointsAt own)).append
    (missing_pointsAt own called (by simp))

theorem staticCall_pointsAt {type : TypeReference Expr} (own : Fits place e.span)
    (called : Fits place call.nameSpan) (part : Fits place type.span) (name : Name Expr) :
    PointsAt place (c.staticCall e call type name) := by
  have abstract : PointsAt place (c.abstractCall e call name) := by
    unfold abstractCall
    split
    · exact PointsAt.nil
    · exact PointsAt.remarkIf (by simp) own
  have misuse := primitiveMisuse_pointsAt part
  exact ((misuse.append (missing_pointsAt own called (by simp))).append
    (c.deprecation_pointsAt own)).append abstract

theorem callee_pointsAt (own : Fits place e.span) (called : Fits place call.nameSpan)
    (exprs : ∀ value, .expr value ∈ call.callee.parts → Fits place value.span)
    (types : ∀ t, .type t ∈ call.callee.parts → Fits place t.span) :
    PointsAt place (c.callee e call) := by
  unfold callee
  cases form : call.callee with
  | function name => exact c.functionCall_pointsAt own called name
  | method receiver name =>
    have part := exprs receiver (by simp [form, Callee.parts])
    exact c.methodCall_pointsAt own called part name
  | static type name =>
    have part := types type (by simp [form, Callee.parts])
    exact c.staticCall_pointsAt own called part name
  | new type =>
    have part := types type (by simp [form, Callee.parts])
    exact c.instantiation_pointsAt own part

theorem argumentCount_pointsAt (own : Fits place e.span) :
    PointsAt place (c.argumentCount e call) := by
  unfold argumentCount
  split
  · exact PointsAt.nil
  · split
    · exact PointsAt.nil
    · dsimp only
      split
      · exact PointsAt.singleton (by simp) own
      · split
        · exact PointsAt.nil
        · exact PointsAt.remarkIf (by simp) own

end Calls

section Expressions

variable {e : Expr}

theorem variableUse_pointsAt (own : Fits place e.span) (v : Variable Expr) :
    PointsAt place (variableUse e v) := by
  unfold variableUse
  split
  · exact PointsAt.nil
  · refine PointsAt.append ?_ (PointsAt.remarkIf (by simp) own)
    split
    · exact PointsAt.remarkIf (by simp) own
    · exact PointsAt.nil

theorem selfAssignment_pointsAt (own : Fits place e.span) (target value : Expr) :
    PointsAt place (selfAssignment e target value) := by
  unfold selfAssignment
  split
  · exact PointsAt.remarkIf (by simp) own
  · exact PointsAt.nil

theorem items_pointsAt {items : List (ArrayItem Expr)} (seen : List ArrayKey)
    (keys : ∀ item ∈ items, ∀ key, item.key = some key → Fits place key.span)
    (values : ∀ item ∈ items, Fits place item.value.span) :
    PointsAt place (c.items seen items) := by
  induction items generalizing seen with
  | nil => exact PointsAt.nil
  | cons item rest ih =>
    have later (seen : List ArrayKey) : PointsAt place (c.items seen rest) :=
      ih seen (fun other member => keys other (List.mem_cons_of_mem item member))
        fun other member => values other (List.mem_cons_of_mem item member)
    rw [items]
    split
    · exact later seen
    · rename_i key present
      have own := keys item List.mem_cons_self key present
      have illegal : PointsAt place (c.keyType key) := PointsAt.remarkIf (by simp) own
      refine illegal.append ?_
      split
      · exact later seen
      · have fallback := own.or (values item List.mem_cons_self)
        exact (PointsAt.remarkIf (by simp) fallback).append (later _)

theorem assertion_pointsAt {arguments : List (Argument Expr)} (own : Fits place e.span)
    (parts : ∀ argument ∈ arguments, Fits place argument.value.span) :
    PointsAt place (c.assertion e arguments) := by
  cases arguments with
  | nil => exact PointsAt.singleton (by simp) own
  | cons first rest =>
    have asserted := parts first List.mem_cons_self
    exact ((PointsAt.remarkIf (by simp) own).append (PointsAt.remarkIf (by simp) asserted)).append
      (PointsAt.remarkIf (by simp) own)

theorem fits_span (own : ∀ t ∈ (Node.expr e).spans, place t) : Fits place e.span :=
  fun t found => own t (Node.mem_spans_of_expr found)

variable (exprs : ∀ value, .expr value ∈ e.form.parts → Fits place value.span)
  (types : ∀ t, .type t ∈ e.form.parts → Fits place t.span)

include exprs types in
theorem enterExpr_pointsAt (own : ∀ t ∈ (Node.expr e).spans, place t)
    (other : ∀ code, e.form ≠ .eval code) : PointsAt place (c.enterExpr e) := by
  have here := fits_span own
  unfold enterExpr
  cases form : e.form with
  | var v => exact variableUse_pointsAt here v
  | assign target value => exact selfAssignment_pointsAt here target value
  | array items =>
    have unread : PointsAt place (remarkIf e.access.isNone e.span .valueNotRead) :=
      PointsAt.remarkIf (by simp) here
    have keys : ∀ item ∈ items, ∀ key, item.key = some key → Fits place key.span := by
      intro item member key present
      apply exprs key
      rw [form]
      exact List.mem_flatMap.2 ⟨item, member, by simp [present]⟩
    have values : ∀ item ∈ items, Fits place item.value.span := by
      intro item member
      apply exprs item.value
      rw [form]
      exact List.mem_flatMap.2 ⟨item, member, by simp⟩
    exact unread.append (c.items_pointsAt [] keys values)
  | eval code => exact absurd form (other code)
  | call call =>
    have called : Fits place call.nameSpan := by
      intro t found
      exact own t (by simp [Node.spans, form, found])
    refine c.callee_pointsAt here called (fun value part => exprs value ?_) fun t part => types t ?_
    · rw [form]
      exact List.mem_append_left _ part
    · rw [form]
      exact List.mem_append_left _ part
  | instanceOf operand type =>
    exact primitiveMisuse_pointsAt (types type (by simp [form, Form.parts]))
  | field f =>
    refine PointsAt.flatMap fun type present => primitiveMisuse_pointsAt (types type ?_)
    rw [form]
    exact List.mem_append_right _ (List.mem_map_of_mem present)
  | _ => exact PointsAt.nil

include exprs in
theorem leaveExpr_pointsAt (own : Fits place e.span) : PointsAt place (c.leaveExpr e) := by
  unfold leaveExpr
  split
  · rename_i right form
    exact PointsAt.remarkIf (by simp) (exprs right (by simp [form, Form.parts]))
  · exact PointsAt.remarkIf (by simp) own
  · exact PointsAt.remarkIf (by simp) own
  · rename_i arguments form
    refine c.assertion_pointsAt own fun argument member => exprs argument.value ?_
    rw [form]
    exact List.mem_map_of_mem member
  · exact c.argumentCount_pointsAt own
  · exact PointsAt.nil

end Expressions

theorem statement_pointsAt {s : Statement} (around : Surroundings)
    (own : ∀ t ∈ (Node.statement s).spans, place t) : PointsAt place (c.statement around s) := by
  have here : Fits place s.span := fun t found => own t (Node.mem_spans_of_statement found)
  unfold statement
  split
  · exact ((PointsAt.remarkIf (by simp) here).append (PointsAt.remarkIf (by simp) here)).append
      (PointsAt.remarkIf (by simp) here)
  · exact PointsAt.remarkIf (by simp) here
  · rename_i clause form
    refine PointsAt.singleton (by simp) fun t found => own t ?_
    simpa [Node.spans, form] using .inr (Option.some.inj found).symm
  · exact PointsAt.nil

/-- Uses of `eval` apart, all remarks at a node are at one of its own spans or of those of its
children, if anywhere. -/
theorem node_pointsAt {n : Node} (around : Surroundings) (own : ∀ t ∈ n.spans, place t)
    (parts : ∀ m ∈ n.children, ∀ t ∈ m.spans, place t)
    (other : ∀ e code, n = .expr e → e.form ≠ .eval code) :
    PointsAt place (c.enter around n ++ c.leave n) := by
  have exprs (value : Expr) (part : .expr value ∈ n.children) : Fits place value.span :=
    fits_span (parts _ part)
  have types (t : TypeReference Expr) (part : .type t ∈ n.children) : Fits place t.span :=
    fun u found => parts (.type t) part u (Option.mem_toList.2 found)
  cases n with
  | block b => exact PointsAt.nil
  | header h =>
    refine (PointsAt.flatMap fun t listed => ?_).append PointsAt.nil
    exact primitiveMisuse_pointsAt
      (types t (List.mem_append_left _ (List.mem_map_of_mem listed)))
  | statement s => exact (c.statement_pointsAt around own).append PointsAt.nil
  | edge edge =>
    refine PointsAt.append PointsAt.nil ?_
    unfold leave
    split
    · cases ‹Node.edge edge = _›
    · rename_i collection target same
      refine PointsAt.remarkIf (by simp) (exprs collection ?_)
      rw [same]
      exact List.mem_cons_self
    · exact PointsAt.nil
  | expr e =>
    have inner (value : Expr) (part : .expr value ∈ e.form.parts) : Fits place value.span :=
      exprs value (List.mem_map.2 ⟨_, part, rfl⟩)
    have entered := c.enterExpr_pointsAt inner
      (fun t part => types t (List.mem_map.2 ⟨_, part, rfl⟩)) own fun code => other e code rfl
    exact entered.append (c.leaveExpr_pointsAt inner (fits_span own))
  | type t =>
    have here : Fits place t.span := fun u found => own u (Option.mem_toList.2 found)
    exact (c.reference_pointsAt here).append PointsAt.nil

end Context

end FlowLint
