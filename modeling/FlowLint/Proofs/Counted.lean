import FlowLint.Proofs.Pool
import FlowLint.Proofs.Remark
import FlowLint.Proofs.Visited
import Mathlib.Data.Set.Card

/-!
How many diagnostics of a kind there are. Some remarks are made about every part of a certain kind,
wherever it stands: primitive types in place of classes, undefined types, methods and functions, and
uses of `eval`. There are as many of them as there are such parts in the blocks that control can
reach.
-/

namespace FlowLint

def TypeReference.isPrimitive (t : TypeReference Expr) : Bool :=
  match t.name with
  | .primitive _ => true
  | _ => false

def TypeReference.isUndefined (t : TypeReference Expr) : Bool :=
  match t.name, t.resolution with
  | .named _, .missing => true
  | _, _ => false

def Call.isOfFunction (c : Call Expr) : Bool :=
  match c.callee with
  | .function (.direct _) => true
  | _ => false

def Call.isOfMethod (c : Call Expr) : Bool :=
  match c.callee with
  | .method _ _ | .static _ _ => true
  | _ => false

namespace Part

def isPrimitive : Part Expr → Bool
  | .type t => t.isPrimitive
  | .expr _ => false

def isUndefinedType : Part Expr → Bool
  | .type t => t.isUndefined
  | .expr _ => false

def isUndefinedFunction : Part Expr → Bool
  | .type _ => false
  | .expr e =>
    match e.form with
    | .call c => c.isOfFunction && c.target == .missing
    | _ => false

def isUndefinedMethod : Part Expr → Bool
  | .type _ => false
  | .expr e =>
    match e.form with
    | .call c => c.isOfMethod && c.target == .missing
    | _ => false

def isEval : Part Expr → Bool
  | .type _ => false
  | .expr e =>
    match e.form with
    | .eval _ => true
    | _ => false

def told (part : Part Expr) : List String :=
  (if part.isUndefinedType then ["W0205"] else []) ++
  (if part.isUndefinedFunction then ["W0211"] else []) ++
  (if part.isUndefinedMethod then ["W0212"] else []) ++
  (if part.isEval then ["I0304"] else [])

end Part

namespace Node

def is (kind : Part Expr → Bool) (n : Node) : Bool := n.part?.any kind

/-- The codes of what is said at the node. A primitive type is reported by the node around it. -/
def told (n : Node) : List String :=
  List.replicate (n.children.countP (is Part.isPrimitive)) "E0104" ++
    n.part?.toList.flatMap Part.told

end Node

/-- The codes of which there are as many as there are parts of a kind. -/
def countedCodes : List String := ["E0104", "W0205", "W0211", "W0212", "I0304"]

def counted (rs : List Remark) : List String :=
  (rs.map fun r => r.finding.code).filter (· ∈ countedCodes)

@[simp] theorem counted_append (first second : List Remark) :
    counted (first ++ second) = counted first ++ counted second := by
  simp [counted]

theorem count_counted {code : String} (known : code ∈ countedCodes) (rs : List Remark) :
    (counted rs).count code = rs.countP fun r => r.finding.code == code := by
  rw [counted, List.count_filter (by simpa using known), List.count, List.countP_map]
  rfl

theorem Within.counted_eq_nil {codes : List String} {rs : List Remark} (within : Within codes rs)
    (apart : ∀ code ∈ codes, code ∉ countedCodes) : counted rs = [] := by
  simp only [counted, List.filter_eq_nil_iff, List.forall_mem_map, decide_eq_true_eq]
  exact fun r member => apart _ (within r member)

namespace Context

variable (c : Context)

theorem counted_judge (value : Expr) (j : Judgement) : counted (c.judge value j) = [] :=
  Within.counted_eq_nil (Within.judge j.code_mem) (by decide)

theorem counted_leave (n : Node) : counted (c.leave n) = [] := by
  have within : Within (leaveCodes ++ judgementCodes) (c.leave n) :=
    c.leave_within (List.subset_append_left _ _) fun _ j _ =>
      Within.judge (List.mem_append_right _ j.code_mem)
  exact within.counted_eq_nil (by decide)

theorem counted_misuse (t : TypeReference Expr) :
    counted (primitiveMisuse t) =
      List.replicate ([t].countP TypeReference.isPrimitive) "E0104" := by
  rw [List.countP_singleton, primitiveMisuse]
  unfold TypeReference.isPrimitive
  cases t.name <;> rfl

theorem counted_misuses (ts : List (TypeReference Expr)) :
    counted (ts.flatMap primitiveMisuse) =
      List.replicate (ts.countP TypeReference.isPrimitive) "E0104" := by
  induction ts with
  | nil => rfl
  | cons t rest ih =>
    rw [List.flatMap_cons, counted_append, counted_misuse, ih, List.replicate_append_replicate,
      ← List.countP_append]
    rfl

theorem counted_reference (t : TypeReference Expr) :
    counted (c.reference t) = if t.isUndefined then ["W0205"] else [] := by
  have parent : counted (c.parentless t) = [] :=
    (Within.remarkIf (List.mem_singleton.2 rfl) : Within ["E0103"] (c.parentless t)).counted_eq_nil
      (by decide)
  have spelling : counted (c.nameCase t) = [] :=
    (c.nameCase_within t (List.mem_singleton.2 rfl)).counted_eq_nil (by decide)
  have undefined : counted (undefinedType t) = if t.isUndefined then ["W0205"] else [] := by
    unfold undefinedType TypeReference.isUndefined
    cases t.name <;> cases t.resolution <;> rfl
  unfold reference
  split
  · rename_i ambiguous
    have known : t.isUndefined = false := by
      unfold TypeReference.isUndefined
      rw [ambiguous]
      cases t.name <;> rfl
    rw [known]
    rfl
  · rw [counted_append, counted_append, parent, spelling, undefined, List.append_nil,
      List.append_nil]

theorem counted_remarkIf (condition : Bool) (span : Option Span) (f : Finding) :
    counted (remarkIf condition span f) =
      if condition then [f.code].filter (· ∈ countedCodes) else [] := by
  cases condition <;> rfl

theorem counted_deprecation (e : Expr) (call : Call Expr) : counted (c.deprecation e call) = [] :=
  (c.deprecation_within e call (List.mem_singleton.2 rfl)).counted_eq_nil (by decide)

theorem counted_functionCall (e : Expr) (call : Call Expr) (name : Name Expr) :
    counted (c.functionCall e call name) =
      if name.direct?.isSome && call.target == .missing then ["W0211"] else [] := by
  cases name with
  | direct function =>
    have format : counted (formatCount e call function) = [] :=
      (formatCount_within e call function (List.mem_singleton.2 rfl)).counted_eq_nil (by decide)
    rw [functionCall, counted_append, counted_append, counted_deprecation, format,
      counted_remarkIf]
    simp [Name.direct?, Finding.code, countedCodes]
  | indirect callee =>
    rw [functionCall_indirect, counted_judge]
    rfl

theorem counted_methodCall (e : Expr) (call : Call Expr) (receiver : Expr) (name : Name Expr) :
    counted (c.methodCall e call receiver name) =
      if call.target == .missing then ["W0212"] else [] := by
  rw [methodCall_eq, counted_append, counted_append, counted_judge, counted_deprecation,
    counted_remarkIf]
  simp [Finding.code, countedCodes]

theorem counted_staticCall (e : Expr) (call : Call Expr) (type : TypeReference Expr)
    (name : Name Expr) :
    counted (c.staticCall e call type name) =
      List.replicate ([type].countP TypeReference.isPrimitive) "E0104" ++
        if call.target == .missing then ["W0212"] else [] := by
  have abstract : counted (c.abstractCall e call name) = [] :=
    (c.abstractCall_within e call name (List.mem_singleton.2 rfl)).counted_eq_nil (by decide)
  rw [staticCall, counted_append, counted_append, counted_append, counted_misuse,
    counted_deprecation, abstract, counted_remarkIf]
  simp [Finding.code, countedCodes]

theorem counted_instantiation (e : Expr) (t : TypeReference Expr) :
    counted (c.instantiation e t) =
      List.replicate ([t].countP TypeReference.isPrimitive) "E0104" := by
  have obstacle {rest : List Remark} (silent : counted rest = []) :
      counted (primitiveMisuse t ++ rest) =
        List.replicate ([t].countP TypeReference.isPrimitive) "E0104" := by
    rw [counted_append, counted_misuse, silent, List.append_nil]
  apply obstacle
  split
  · rfl
  · split <;> rfl

end Context

namespace Part

theorem told_type (t : TypeReference Expr) :
    (Part.type t).told = if t.isUndefined then ["W0205"] else [] := by
  cases undefined : t.isUndefined <;>
    simp [told, undefined, isUndefinedType, isUndefinedFunction, isUndefinedMethod, isEval]

theorem told_expr (e : Expr) :
    (Part.expr e).told =
      match e.form with
      | .call c =>
        (if c.isOfFunction && c.target == .missing then ["W0211"] else []) ++
          if c.isOfMethod && c.target == .missing then ["W0212"] else []
      | .eval _ => ["I0304"]
      | _ => [] := by
  cases form : e.form <;>
    simp [told, form, isUndefinedType, isUndefinedFunction, isUndefinedMethod, isEval]

@[simp] theorem isPrimitive_comp_expr {α : Type} (value : α → Expr) :
    (isPrimitive ∘ fun a => Part.expr (value a)) = fun _ => false := rfl

theorem countP_isPrimitive_name (name : Name Expr) : name.parts.countP isPrimitive = 0 := by
  cases name <;> rfl

theorem countP_isPrimitive_items (items : List (ArrayItem Expr)) :
    (Form.array items).parts.countP isPrimitive = 0 := by
  rw [List.countP_eq_zero]
  intro part member
  obtain ⟨item, -, member⟩ := List.mem_flatMap.1 member
  rcases List.mem_append.1 member with key | value
  · obtain ⟨key, -, rfl⟩ := List.mem_map.1 key
    exact Bool.false_ne_true
  · rw [List.mem_singleton.1 value]
    exact Bool.false_ne_true

theorem countP_isPrimitive_callee (c : Callee Expr) :
    c.parts.countP isPrimitive =
      match c with
      | .static t _ | .new t => [t].countP TypeReference.isPrimitive
      | _ => 0 := by
  cases c with
  | function name => exact countP_isPrimitive_name name
  | method receiver name =>
    rw [Callee.parts, List.countP_cons_of_neg Bool.false_ne_true, countP_isPrimitive_name]
  | static type name =>
    rw [Callee.parts, List.countP_cons, countP_isPrimitive_name, Nat.zero_add]
    exact (List.countP_singleton ..).symm
  | new type => rfl

end Part

namespace Node

@[simp] theorem is_ofPart (part : Part Expr) (kind : Part Expr → Bool) :
    (ofPart part).is kind = kind part := by
  cases part <;> rfl

theorem countP_ofParts (parts : List (Part Expr)) (kind : Part Expr → Bool) :
    (parts.map ofPart).countP (is kind) = parts.countP kind := by
  simp [List.countP_map, Function.comp_def]

theorem countP_exprs (es : List Expr) : (es.map expr).countP (is Part.isPrimitive) = 0 := by
  simp [List.countP_eq_zero, is, part?, Part.isPrimitive]

theorem countP_types (ts : List (TypeReference Expr)) :
    (ts.map type).countP (is Part.isPrimitive) = ts.countP TypeReference.isPrimitive := by
  rw [List.countP_map]
  rfl

theorem countP_block (b : Block) : (block b).children.countP (is Part.isPrimitive) = 0 := by
  have statements : (b.statements.map statement).countP (is Part.isPrimitive) = 0 := by
    simp [List.countP_eq_zero, is, part?]
  have edges : (b.edge.toList.map edge).countP (is Part.isPrimitive) = 0 := by
    simp [List.countP_eq_zero, is, part?]
  rw [children, List.countP_append, List.countP_append, statements, edges]
  cases b.kind <;> rfl

theorem told_ofPart (part : Part Expr) :
    (ofPart part).told =
      List.replicate ((ofPart part).children.countP (is Part.isPrimitive)) "E0104" ++
        part.told := by
  cases part <;> simp [told, part?, ofPart]

end Node

namespace Context

variable (c : Context)

theorem counted_callee (e : Expr) (call : Call Expr) :
    counted (c.callee e call) =
      List.replicate (call.callee.parts.countP Part.isPrimitive) "E0104" ++
        ((if call.isOfFunction && call.target == .missing then ["W0211"] else []) ++
          if call.isOfMethod && call.target == .missing then ["W0212"] else []) := by
  unfold callee
  rw [Part.countP_isPrimitive_callee]
  cases form : call.callee with
  | function name =>
    cases name <;>
      simp [counted_functionCall, Call.isOfFunction, Call.isOfMethod, form, Name.direct?]
  | method receiver name => simp [counted_methodCall, Call.isOfFunction, Call.isOfMethod, form]
  | static type name =>
    rw [counted_staticCall]
    simp [Call.isOfFunction, Call.isOfMethod, form]
  | new type =>
    rw [counted_instantiation]
    simp [Call.isOfFunction, Call.isOfMethod, form]

theorem counted_arrayLiteral (e : Expr) (items : List (ArrayItem Expr)) :
    counted (c.arrayLiteral e items) = [] := by
  have unread : Within ["W0202", "W0203", "W0204"]
      (remarkIf e.access.isNone e.span .valueNotRead) := Within.remarkIf (by decide)
  have listed : Within ["W0202", "W0203", "W0204"] (c.items [] items) :=
    c.items_within [] (by decide) fun _ _ _ _ => Within.judge (by decide)
  exact (unread.append listed).counted_eq_nil (by decide)

theorem counted_enterExpr (e : Expr) :
    counted (c.enterExpr e) =
      List.replicate (e.form.parts.countP Part.isPrimitive) "E0104" ++ (Part.expr e).told := by
  rw [enterExpr, Part.told_expr]
  cases form : e.form with
  | var v =>
    have silent : counted (variableUse e v) = [] :=
      (variableUse_within e v (List.Subset.refl _)).counted_eq_nil (by decide)
    simp [silent, Form.parts, Part.countP_isPrimitive_name]
  | assign target value =>
    have silent : counted (selfAssignment e target value) = [] :=
      (selfAssignment_within e target value (List.mem_singleton.2 rfl)).counted_eq_nil (by decide)
    simp [silent, Form.parts, Part.isPrimitive]
  | array items =>
    rw [counted_arrayLiteral, Part.countP_isPrimitive_items]
    rfl
  | eval code => rfl
  | call call =>
    simp [counted_callee, Form.parts]
  | instanceOf operand type =>
    rw [counted_misuse, List.append_nil]
    rfl
  | field f =>
    have receiver : (f.receiver.toList.map Part.expr).countP Part.isPrimitive = 0 := by
      simp [Function.comp_def, Part.isPrimitive]
    rw [counted_misuses, Form.parts, List.countP_append, receiver, Nat.zero_add, List.countP_map,
      List.append_nil]
    rfl
  | _ => simp [Form.parts, Part.isPrimitive, Function.comp_def, counted]

theorem counted_enter (around : Surroundings) (n : Node) : counted (c.enter around n) = n.told := by
  cases n with
  | block b =>
    rw [Node.told, Node.countP_block]
    rfl
  | header h =>
    rw [enter, counted_misuses, Node.told, Node.children, List.countP_append, Node.countP_types,
      Node.countP_exprs]
    exact (List.append_nil _).symm
  | statement s =>
    rw [Node.told, Node.children, Node.countP_exprs]
    exact (c.statement_within around s (List.Subset.refl _)).counted_eq_nil (by decide)
  | edge e =>
    rw [Node.told, Node.children, Node.countP_exprs]
    rfl
  | expr e =>
    rw [enter, counted_enterExpr, ← Node.countP_ofParts]
    exact (Node.told_ofPart (.expr e)).symm
  | type t =>
    have plain : t.parts.countP Part.isPrimitive = 0 := by
      unfold TypeReference.parts
      split <;> rfl
    rw [enter, counted_reference, Node.told, Node.children, Node.countP_ofParts, plain,
      ← Part.told_type]
    simp [Node.part?]

theorem counted_routine (g : Graph) : counted (c.routine g) = g.entered.flatMap Node.told :=
  c.read_routine rfl counted_append c.counted_enter c.counted_leave fun _ within =>
    within.counted_eq_nil (by decide)

end Context

namespace Node

variable {kind : Part Expr → Bool} {code : String}

theorem countP_forest_of {q : Node → Bool} {roots : List Node}
    (each : ∀ n ∈ roots,
      n.entered.countP q = [n].countP q + (n.entered.flatMap children).countP q) :
    (roots.flatMap entered).countP q =
      roots.countP q + ((roots.flatMap entered).flatMap children).countP q := by
  induction roots with
  | nil => rfl
  | cons n rest ih =>
    have here := each n List.mem_cons_self
    have later := ih fun m member => each m (List.mem_cons_of_mem n member)
    have split : (n :: rest).countP q = [n].countP q + rest.countP q :=
      @List.countP_append _ q [n] rest
    rw [List.flatMap_cons, List.countP_append, List.flatMap_append, List.countP_append, here, later,
      split]
    omega

theorem countP_entered (q : Node → Bool) (n : Node) :
    n.entered.countP q = [n].countP q + (n.entered.flatMap children).countP q := by
  induction n using Node.induction with
  | step n ih =>
    have split : (n :: n.children.flatMap entered).countP q =
        [n].countP q + (n.children.flatMap entered).countP q := @List.countP_append _ q [n] _
    rw [entered_eq, split, countP_forest_of ih, List.flatMap_cons, List.countP_append]

theorem countP_forest (q : Node → Bool) (roots : List Node) :
    (roots.flatMap entered).countP q =
      roots.countP q + ((roots.flatMap entered).flatMap children).countP q :=
  countP_forest_of fun n _ => countP_entered q n

theorem count_flatMap_eq {code : String} {q : Node → Bool} {view : Node → List Node}
    (each : ∀ n : Node, n.told.count code = (view n).countP q) (nodes : List Node) :
    (nodes.flatMap told).count code = (nodes.flatMap view).countP q := by
  induction nodes with
  | nil => rfl
  | cons n rest ih =>
    rw [List.flatMap_cons, List.count_append, each, ih, List.flatMap_cons, List.countP_append]

end Node

theorem Part.count_told (part : Part Expr) :
    part.told.count "E0104" = 0 ∧
      (part.told.count "W0205" = if part.isUndefinedType then 1 else 0) ∧
      (part.told.count "W0211" = if part.isUndefinedFunction then 1 else 0) ∧
      (part.told.count "W0212" = if part.isUndefinedMethod then 1 else 0) ∧
      part.told.count "I0304" = if part.isEval then 1 else 0 := by
  unfold told
  cases part.isUndefinedType <;> cases part.isUndefinedFunction <;>
    cases part.isUndefinedMethod <;> cases part.isEval <;> decide

namespace Node

/-- Primitive types are reported by the nodes around them. -/
theorem count_told_primitive (n : Node) :
    n.told.count "E0104" = n.children.countP (is Part.isPrimitive) := by
  have own : (n.part?.toList.flatMap Part.told).count "E0104" = 0 := by
    cases n.part? with
    | none => rfl
    | some part => simpa using part.count_told.1
  rw [told, List.count_append, List.count_replicate_self, own, Nat.add_zero]

theorem count_told_own {code : String} {kind : Part Expr → Bool} (other : code ≠ "E0104")
    (own : ∀ part, (Part.told part).count code = if kind part then 1 else 0) (n : Node) :
    n.told.count code = [n].countP (is kind) := by
  rw [told, List.count_append, List.count_replicate]
  cases part : n.part? with
  | none => simp [is, part, other.symm]
  | some p => simp [is, part, other.symm, own]

end Node

namespace Graph

variable {g : Graph}

/-- The number of addresses at which there is a part of the kind. -/
noncomputable def number (g : Graph) (kind : Part Expr → Bool) : ENat :=
  Set.encard {a | ∃ part, g.Holds a part ∧ kind part = true}

theorem number_eq (sorted : Ascending g.blocks) (kind : Part Expr → Bool) :
    g.number kind = g.entered.countP (Node.is kind) := by
  let addresses := (g.places.filter fun x => kind x.2).map Prod.fst
  have distinct : addresses.Nodup := (places_nodup sorted).sublist (List.filter_sublist.map _)
  have same : {a | ∃ part, g.Holds a part ∧ kind part = true} =
      (addresses.toFinset : Set Address) := by
    ext a
    simp [addresses, ← mem_places_iff sorted]
  have visited : g.entered.countP (Node.is kind) = g.visited.countP kind := by
    have is : Node.is kind = fun n => (n.part?.map kind).getD false := by
      funext n
      cases part : n.part? <;> simp [Node.is, part]
    rw [visited_eq, List.countP_filterMap, is]
  rw [number, same, Set.encard_coe_eq_coe_finsetCard, List.toFinset_card_of_nodup distinct, visited,
    ← map_snd_places, List.countP_map, List.countP_eq_length_filter, List.length_map]
  rfl

theorem count_told (sorted : Ascending g.blocks) :
    ((g.entered.flatMap Node.told).count "E0104" : ENat) = g.number Part.isPrimitive ∧
      ((g.entered.flatMap Node.told).count "W0205" : ENat) = g.number Part.isUndefinedType ∧
      ((g.entered.flatMap Node.told).count "W0211" : ENat) = g.number Part.isUndefinedFunction ∧
      ((g.entered.flatMap Node.told).count "W0212" : ENat) = g.number Part.isUndefinedMethod ∧
      ((g.entered.flatMap Node.told).count "I0304" : ENat) = g.number Part.isEval := by
  have own {code : String} {kind : Part Expr → Bool} (other : code ≠ "E0104")
      (each : ∀ part, (Part.told part).count code = if kind part then 1 else 0) :
      ((g.entered.flatMap Node.told).count code : ENat) = g.number kind := by
    rw [number_eq sorted, Node.count_flatMap_eq (Node.count_told_own other each),
      List.flatMap_singleton']
  -- a primitive type is a child of the node that reports it, and no block is one
  refine ⟨?_, own (by decide) fun part => part.count_told.2.1,
    own (by decide) fun part => part.count_told.2.2.1,
    own (by decide) fun part => part.count_told.2.2.2.1,
    own (by decide) fun part => part.count_told.2.2.2.2⟩
  have roots : (g.reachableBlocks.map Node.block).countP (Node.is Part.isPrimitive) = 0 := by
    simp [List.countP_eq_zero, Node.is, Node.part?]
  have entered : g.entered = (g.reachableBlocks.map Node.block).flatMap Node.entered := by
    rw [List.flatMap_map]
    rfl
  rw [number_eq sorted, Node.count_flatMap_eq Node.count_told_primitive, entered,
    Node.countP_forest _ (g.reachableBlocks.map Node.block), roots, Nat.zero_add]

end Graph

def Sink.number (s : Sink) (id : RoutineId) (code : String) : Nat :=
  s.all.countP fun d => d.routine == id && d.code == code

theorem Routine.count_diagnostics {symbols : SymbolTable} {r : Routine} {g : Graph}
    {symbol : RoutineSymbol} {code : String} (known : code ∈ countedCodes) (body : r.graph = some g)
    (declared : symbols.routine? r.symbol = some symbol) :
    ((r.diagnostics symbols).countP fun d => d.code == code) =
      (g.entered.flatMap Node.told).count code := by
  rw [diagnostics_eq body declared, List.countP_map, ← (r.context symbols symbol).counted_routine,
    count_counted known]
  rfl

namespace Program

/-- In a routine there are as many diagnostics of certain codes as there are parts of certain kinds
in the blocks that control can reach, at any depth. -/
theorem numbers_exact {p : Program} {s : Sink} {r : Routine} {g : Graph} (valid : p.defect? = none)
    (yields : p.Yields s) (listed : r ∈ p.routines) (body : r.graph = some g) :
    (s.number r.symbol "E0104" : ENat) = g.number Part.isPrimitive ∧
      (s.number r.symbol "W0205" : ENat) = g.number Part.isUndefinedType ∧
      (s.number r.symbol "W0211" : ENat) = g.number Part.isUndefinedFunction ∧
      (s.number r.symbol "W0212" : ENat) = g.number Part.isUndefinedMethod ∧
      (s.number r.symbol "I0304" : ENat) = g.number Part.isEval := by
  rw [defect?_eq_none_iff] at valid
  obtain ⟨symbol, declared⟩ := valid.declared r listed
  have own {code : String} (known : code ∈ countedCodes) :
      s.number r.symbol code = (g.entered.flatMap Node.told).count code := by
    rw [← Routine.count_diagnostics known body declared, ← yields.filter_routine valid listed,
      List.countP_filter, Sink.number]
    simp only [Bool.and_comm]
  rw [own (by decide), own (by decide), own (by decide), own (by decide), own (by decide)]
  exact Graph.count_told (valid.sound r listed g body).sorted

def scalarCall : Expr :=
  let type : TypeReference Expr := ⟨.primitive .int, .deferred, some ⟨6, 9⟩⟩
  ⟨.call ⟨.static type (.direct "parse"), .missing, [], none⟩, some ⟨6, 18⟩, .void,
    ⟨true, false, false, false⟩, none, none⟩

def scalarGraph : Graph :=
  { start := 0
    exit := 1
    blocks := [⟨0, .start, [⟨.echo [scalarCall], none⟩], some (.jump 1)⟩, ⟨1, .exit, [], none⟩]
    labels := []
    unreachable := [] }

def scalarProgram : Program :=
  { symbols := ⟨[], [⟨"main", .globalCode, none, [], false, false, none, none, ⟨0, 0⟩⟩]⟩
    routines := [⟨0, some scalarGraph, .empty⟩] }

theorem scalarProgram_valid : scalarProgram.Valid where
  declared := by simp [scalarProgram, SymbolTable.routine?]
  distinct := List.nodup_singleton _
  sound := by
    have sound : scalarGraph.Sound := ⟨by decide, by decide⟩
    simp [scalarProgram, sound]

theorem scalarGraph_holds :
    scalarGraph.Holds ⟨0, [⟨2, 0, 0⟩, ⟨0, 0, 0⟩]⟩ (.expr scalarCall) ∧
      scalarGraph.Holds ⟨0, [⟨2, 0, 0⟩, ⟨0, 0, 0⟩, ⟨0, 0, 0⟩]⟩
        (.type ⟨.primitive .int, .deferred, some ⟨6, 9⟩⟩) :=
  ⟨⟨_, List.mem_cons_self, rfl, .refl, .within (.statement rfl)
      (.within (.ofStatement (.echo rfl)) .here)⟩,
    ⟨_, List.mem_cons_self, rfl, .refl, .within (.statement rfl)
      (.within (.ofStatement (.echo rfl)) (.within (.ofExpr (.callee .staticType)) .here))⟩⟩

theorem scalarProgram_numbers :
    scalarProgram.defect? = none ∧ scalarProgram.analyze.number 0 "E0104" ≠ 0 ∧
      scalarProgram.analyze.number 0 "W0212" ≠ 0 := by
  have valid := defect?_eq_none_iff.2 scalarProgram_valid
  obtain ⟨primitives, -, -, methods, -⟩ :=
    numbers_exact valid (yields_analyze _) (List.mem_singleton.2 rfl) rfl
  obtain ⟨call, type⟩ := scalarGraph_holds
  refine ⟨valid, fun none => ?_, fun none => ?_⟩
  · rw [none, Nat.cast_zero, eq_comm, Graph.number, Set.encard_eq_zero] at primitives
    exact Set.eq_empty_iff_forall_notMem.1 primitives _ ⟨_, type, rfl⟩
  · rw [none, Nat.cast_zero, eq_comm, Graph.number, Set.encard_eq_zero] at methods
    exact Set.eq_empty_iff_forall_notMem.1 methods _ ⟨_, call, rfl⟩

end Program

end FlowLint
