import FlowLint.Proofs.Rule.Judgement
import FlowLint.Rule.Routine
import FlowLint.Rule.Step

/-!
Which rule reports which codes. What is said about an expression or a reference to a type has one
of the codes of these rules, or comes from a judgement on the type of a part.
-/

namespace FlowLint

@[simp] theorem remarkIf_false (span : Option Span) (finding : Finding) :
    remarkIf false span finding = [] := rfl

theorem filter_remarkIf (q : Remark → Bool) (condition : Bool) (span : Option Span)
    (finding : Finding) :
    (remarkIf condition span finding).filter q =
      remarkIf (condition && q ⟨span, finding⟩) span finding := by
  cases condition <;> cases chosen : q ⟨span, finding⟩ <;> simp [remarkIf, chosen]

namespace Node

/-- The value that an assertion is about. -/
def asserted? : Node → Option Expr
  | expr e =>
    match e.form with
    | .assert (first :: _) => some first.value
    | _ => none
  | _ => none

/-- The rules at the node may judge the value in this way. They may judge each expression right
below the node in any way but one: what is judged as asserted is what an assertion is about. -/
def Judges (n : Node) (value : Expr) (j : Judgement) : Prop :=
  .expr value ∈ n.children ∧ (j = .asserted → n.asserted? = some value)

theorem judges_part {e value : Expr} {j : Judgement} (part : .expr value ∈ e.form.parts)
    (other : j ≠ .asserted) : (Node.expr e).Judges value j :=
  ⟨List.mem_map.2 ⟨.expr value, part, rfl⟩, fun same => absurd same other⟩

theorem asserted?_eq_some_iff {n : Node} {value : Expr} :
    n.asserted? = some value ↔
      ∃ e first rest, n = .expr e ∧ e.form = .assert (first :: rest) ∧ first.value = value := by
  constructor
  · intro asserted
    cases n with
    | expr e =>
      simp only [asserted?] at asserted
      split at asserted
      · rename_i first rest form
        exact ⟨e, first, rest, rfl, form, Option.some.inj asserted⟩
      · cases asserted
    | _ => cases asserted
  · rintro ⟨e, first, rest, rfl, form, rfl⟩
    rw [asserted?, form]

theorem judges_asserted {n : Node} {value : Expr} (asserted : n.asserted? = some value) :
    n.Judges value .asserted := by
  obtain ⟨e, first, rest, rfl, form, rfl⟩ := asserted?_eq_some_iff.1 asserted
  refine ⟨List.mem_map.2 ⟨.expr first.value, ?_, rfl⟩, fun _ => asserted⟩
  rw [form]
  exact List.mem_cons_self

end Node

def Within (codes : List String) (rs : List Remark) : Prop := ∀ r ∈ rs, r.finding.code ∈ codes

variable {codes : List String}

namespace Within

@[simp] theorem nil : Within codes [] := fun _ member => absurd member List.not_mem_nil

@[simp] theorem singleton_iff {r : Remark} : Within codes [r] ↔ r.finding.code ∈ codes :=
  List.forall_mem_singleton

@[simp] theorem append_iff {first second : List Remark} :
    Within codes (first ++ second) ↔ Within codes first ∧ Within codes second :=
  List.forall_mem_append

theorem append {first second : List Remark} (left : Within codes first)
    (right : Within codes second) : Within codes (first ++ second) := append_iff.2 ⟨left, right⟩

theorem remarkIf {condition : Bool} {span : Option Span} {finding : Finding}
    (known : finding.code ∈ codes) : Within codes (remarkIf condition span finding) := by
  intro r member
  rw [(mem_remarkIf.1 member).2]
  exact known

theorem flatMap {α : Type} {f : α → List Remark} {l : List α}
    (each : ∀ a ∈ l, Within codes (f a)) : Within codes (l.flatMap f) := by
  intro r member
  obtain ⟨a, present, inside⟩ := List.mem_flatMap.1 member
  exact each a present r inside

theorem judge {c : Context} {value : Expr} {j : Judgement} (known : j.code ∈ codes) :
    Within codes (c.judge value j) := by
  intro r member
  rw [c.judge_code value j r member]
  exact known

theorem filter_eq_nil {q : Remark → Bool} {rs : List Remark} (within : Within codes rs)
    (foreign : ∀ r, q r = true → r.finding.code ∉ codes) : rs.filter q = [] := by
  rw [List.filter_eq_nil_iff]
  intro r member chosen
  exact foreign r chosen (within r member)

end Within

/-- The codes of what is said about the target of a call, judgements and formats aside. -/
def calleeCodes : List String :=
  ["W0211", "W0212", "W0213", "E0104", "E0105", "E0106", "E0110"]

/-- The codes of what is said about expressions and references to types without judging a type. -/
def expressionCodes : List String :=
  calleeCodes ++
    ["W0202", "W0204", "W0205", "W0208", "W0209", "W0210", "W0214", "W0215", "W0218", "W0221",
     "E0103", "E0109", "I0303", "I0304"]

def leaveCodes : List String := ["W0209", "W0210", "W0215", "W0218"]

def statementCodes : List String := ["W0207", "E0107", "E0108", "I0301"]

def routineCodes : List String := ["W0206", "E0101", "E0102", "W0201"]

namespace Context

variable (c : Context)

theorem primitiveMisuse_within (t : TypeReference Expr) (known : "E0104" ∈ codes) :
    Within codes (primitiveMisuse t) := by
  unfold primitiveMisuse
  split
  · exact Within.singleton_iff.2 known
  · exact Within.nil

theorem undefinedType_within (t : TypeReference Expr) (known : "W0205" ∈ codes) :
    Within codes (undefinedType t) := by
  unfold undefinedType
  split
  · exact Within.singleton_iff.2 known
  · exact Within.nil

theorem nameCase_within (t : TypeReference Expr) (known : "I0303" ∈ codes) :
    Within codes (c.nameCase t) := by
  unfold nameCase
  split
  · exact Within.remarkIf known
  · exact Within.nil

theorem selfAssignment_within (e target value : Expr) (known : "W0208" ∈ codes) :
    Within codes (selfAssignment e target value) := by
  unfold selfAssignment
  split
  · exact Within.remarkIf known
  · exact Within.nil

theorem deprecation_within (e : Expr) (call : Call Expr) (known : "W0213" ∈ codes) :
    Within codes (c.deprecation e call) := by
  unfold deprecation
  split
  · exact Within.nil
  · split
    · exact Within.nil
    · exact Within.singleton_iff.2 known

theorem formatCount_within (e : Expr) (call : Call Expr) (function : String)
    (known : "W0221" ∈ codes) : Within codes (formatCount e call function) := by
  unfold formatCount
  split
  · exact Within.remarkIf known
  · exact Within.nil

theorem abstractCall_within (e : Expr) (call : Call Expr) (name : Name Expr)
    (known : "E0110" ∈ codes) : Within codes (c.abstractCall e call name) := by
  unfold abstractCall
  split
  · exact Within.nil
  · exact Within.remarkIf known

theorem reference_within (t : TypeReference Expr) (known : ["W0205", "E0103", "I0303"] ⊆ codes) :
    Within codes (c.reference t) := by
  have undefined := undefinedType_within t (known (by decide))
  have parent : Within codes (c.parentless t) := Within.remarkIf (known (by decide))
  have spelling := c.nameCase_within t (known (by decide))
  unfold reference
  split
  · exact Within.nil
  · exact (undefined.append parent).append spelling

theorem instantiation_within (e : Expr) (t : TypeReference Expr) (base : calleeCodes ⊆ codes) :
    Within codes (c.instantiation e t) := by
  refine (primitiveMisuse_within t (base (by decide))).append ?_
  split
  · exact Within.nil
  · split
    · exact Within.nil
    · exact Within.singleton_iff.2 (base (by simp [calleeCodes, Finding.code]))
    · exact Within.singleton_iff.2 (base (by simp [calleeCodes, Finding.code]))

theorem variableUse_within (e : Expr) (v : Variable Expr) (known : ["W0214", "E0109"] ⊆ codes) :
    Within codes (variableUse e v) := by
  unfold variableUse
  split
  · exact Within.nil
  · refine Within.append ?_ (Within.remarkIf (known (by decide)))
    split
    · exact Within.remarkIf (known (by simp [Finding.code]))
    · exact Within.nil

theorem items_within {items : List (ArrayItem Expr)} (seen : List ArrayKey)
    (known : "W0204" ∈ codes)
    (judged : ∀ item ∈ items, ∀ key ∈ item.key, Within codes (c.judge key .key)) :
    Within codes (c.items seen items) := by
  induction items generalizing seen with
  | nil => exact Within.nil
  | cons item rest ih =>
    have later (seen : List ArrayKey) : Within codes (c.items seen rest) :=
      ih seen fun other member => judged other (List.mem_cons_of_mem item member)
    rw [items_cons]
    split
    · exact later seen
    · rename_i key present
      refine (judged item List.mem_cons_self key present).append ?_
      split
      · exact later seen
      · exact Within.append (Within.remarkIf known) (later _)

theorem functionCall_within (e : Expr) (call : Call Expr) (name : Name Expr)
    (base : calleeCodes ⊆ codes)
    (counted : ∀ function, name = .direct function → Within codes (formatCount e call function))
    (judged : ∀ value, .expr value ∈ name.parts → ∀ j ≠ .asserted, Within codes (c.judge value j)) :
    Within codes (c.functionCall e call name) := by
  cases name with
  | direct function =>
    have missing : Within codes
        (remarkIf (call.target == .missing) (call.nameSpan.or e.span)
          (.undefinedFunction function)) :=
      Within.remarkIf (base (by simp [calleeCodes, Finding.code]))
    have deprecated := c.deprecation_within e call (base (by decide))
    exact (missing.append deprecated).append (counted function rfl)
  | indirect callee => exact judged callee (List.mem_singleton.2 rfl) (.callee e.span) (by simp)

theorem methodCall_within (e : Expr) (call : Call Expr) (receiver : Expr) (name : Name Expr)
    (base : calleeCodes ⊆ codes) (judged : ∀ j ≠ .asserted, Within codes (c.judge receiver j)) :
    Within codes (c.methodCall e call receiver name) := by
  have deprecated := c.deprecation_within e call (base (by decide))
  have missing : Within codes
      (remarkIf (call.target == .missing) (call.nameSpan.or e.span)
        (.undefinedMethod (c.receiverName receiver) (methodName name))) :=
    Within.remarkIf (base (by simp [calleeCodes, Finding.code]))
  exact ((judged (.receiver (methodName name)) (by simp)).append deprecated).append missing

theorem staticCall_within (e : Expr) (call : Call Expr) (type : TypeReference Expr)
    (name : Name Expr) (base : calleeCodes ⊆ codes) :
    Within codes (c.staticCall e call type name) := by
  have misuse := primitiveMisuse_within type (base (by decide))
  have undefined : Within codes
      (remarkIf (call.target == .missing) (call.nameSpan.or e.span)
        (.undefinedMethod (((c.type? type).map (·.name)).getD type.text) (methodName name))) :=
    Within.remarkIf (base (by simp [calleeCodes, Finding.code]))
  have deprecated := c.deprecation_within e call (base (by decide))
  have abstract := c.abstractCall_within e call name (base (by decide))
  exact ((misuse.append undefined).append deprecated).append abstract

theorem callee_within (e : Expr) (call : Call Expr) (base : calleeCodes ⊆ codes)
    (counted : ∀ function, call.callee = .function (.direct function) →
      Within codes (formatCount e call function))
    (judged : ∀ value, .expr value ∈ call.callee.parts →
      ∀ j ≠ .asserted, Within codes (c.judge value j)) :
    Within codes (c.callee e call) := by
  unfold callee
  cases form : call.callee with
  | function name =>
    exact c.functionCall_within e call name base
      (fun function direct => counted function (by rw [form, direct]))
      fun value part => judged value (by rwa [form])
  | method receiver name =>
    exact c.methodCall_within e call receiver name base
      (judged receiver (by rw [form]; exact List.mem_cons_self))
  | static type name => exact c.staticCall_within e call type name base
  | new type => exact c.instantiation_within e type base

theorem argumentCount_within (e : Expr) (call : Call Expr) (known : ["W0209", "W0210"] ⊆ codes) :
    Within codes (c.argumentCount e call) := by
  unfold argumentCount
  split
  · exact Within.nil
  · split
    · exact Within.nil
    · dsimp only
      split
      · exact Within.singleton_iff.2 (known (by simp [Finding.code]))
      · split
        · exact Within.nil
        · exact Within.remarkIf (known (by simp [Finding.code]))

theorem assertion_within (e : Expr) (arguments : List (Argument Expr))
    (known : ["W0209", "W0210", "W0215"] ⊆ codes)
    (judged : ∀ first ∈ arguments.head?, Within codes (c.judge first.value .asserted)) :
    Within codes (c.assertion e arguments) := by
  cases arguments with
  | nil =>
    have missing : "W0209" ∈ codes := known (by decide)
    exact Within.singleton_iff.2 missing
  | cons first rest =>
    rw [assertion_cons]
    have fails : Within codes
        (remarkIf (first.value.constant.any Constant.isFalse) e.span .assertionFails) :=
      Within.remarkIf (known (by decide))
    exact (fails.append (judged first rfl)).append
      (Within.remarkIf (known (by simp [Finding.code])))

theorem enterExpr_within {e : Expr} (base : expressionCodes ⊆ codes)
    (judged : ∀ value j, (Node.expr e).Judges value j → Within codes (c.judge value j)) :
    Within codes (c.enterExpr e) := by
  unfold enterExpr
  cases form : e.form with
  | var v => exact variableUse_within e v (List.Subset.trans (by decide) base)
  | assign target value => exact selfAssignment_within e target value (base (by decide))
  | array list =>
    refine (Within.remarkIf (base (by decide))).append (c.items_within [] (base (by decide)) ?_)
    intro item member key present
    refine judged key .key (Node.judges_part ?_ (by simp))
    rw [form]
    refine List.mem_flatMap.2 ⟨item, member, List.mem_append_left _ (List.mem_map.2 ⟨key, ?_, rfl⟩)⟩
    exact Option.mem_toList.2 present
  | eval code =>
    have known : "I0304" ∈ codes := base (by decide)
    exact Within.singleton_iff.2 known
  | call call =>
    refine c.callee_within e call (List.Subset.trans (by decide) base)
      (fun function _ => formatCount_within e call function (base (by decide)))
      fun value part j other => judged value j (Node.judges_part ?_ other)
    rw [form]
    exact List.mem_append_left _ part
  | instanceOf operand type => exact primitiveMisuse_within type (base (by decide))
  | field f => exact Within.flatMap fun type _ => primitiveMisuse_within type (base (by decide))
  | _ => exact Within.nil

theorem leaveExpr_within {e : Expr} (known : leaveCodes ⊆ codes)
    (judged : ∀ value j, (Node.expr e).Judges value j → Within codes (c.judge value j)) :
    Within codes (c.leaveExpr e) := by
  unfold leaveExpr
  split
  · exact Within.remarkIf (known (by decide))
  · rename_i operand form
    have part : .expr operand ∈ e.form.parts := by simp [form, Form.parts]
    exact judged operand (.cloned e.span) (Node.judges_part part (by simp))
  · rename_i target operand form
    have part : .expr operand ∈ e.form.parts := by simp [form, Form.parts]
    exact judged operand (.cast e.span target) (Node.judges_part part (by simp))
  · rename_i arguments form
    have plain : ["W0209", "W0210", "W0215"] ⊆ codes := List.Subset.trans (by decide) known
    refine c.assertion_within e arguments plain fun first leads => ?_
    obtain ⟨rest, rfl⟩ := List.head?_eq_some_iff.1 leads
    exact judged first.value .asserted
      (Node.judges_asserted (Node.asserted?_eq_some_iff.2 ⟨e, first, rest, rfl, form, rfl⟩))
  · exact c.argumentCount_within e _ (List.Subset.trans (by decide) known)
  · exact Within.nil

theorem statement_within (around : Surroundings) (s : Statement) (base : statementCodes ⊆ codes) :
    Within codes (c.statement around s) := by
  unfold statement
  split
  · refine Within.append (Within.append ?_ ?_) ?_ <;>
      exact Within.remarkIf (base (by simp [statementCodes, Finding.code]))
  · exact Within.remarkIf (base (by simp [statementCodes, Finding.code]))
  · exact Within.singleton_iff.2 (base (by simp [statementCodes, Finding.code]))
  · exact Within.nil

theorem parentConstructor_within (called : Bool) (known : "W0206" ∈ codes) :
    Within codes (c.parentConstructor called) := Within.remarkIf known

theorem labels_within (list : List Label) (known : ["E0101", "E0102"] ⊆ codes) :
    Within codes (labels list) := by
  refine Within.flatMap fun l _ => Within.append ?_ ?_
  · exact Within.remarkIf (known (by simp [Finding.code]))
  · exact Within.remarkIf (known (by simp [Finding.code]))

theorem unreachableCode_within (g : Graph) (known : "W0201" ∈ codes) :
    Within codes (unreachableCode g) := by
  intro r member
  obtain ⟨id, -, found⟩ := List.mem_filterMap.1 member
  obtain ⟨span, -, rfl⟩ := Option.map_eq_some_iff.1 found
  exact known

end Context

end FlowLint
