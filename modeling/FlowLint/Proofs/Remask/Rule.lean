import FlowLint.Proofs.Remask.Graph
import FlowLint.Proofs.Rule.Judgement
import FlowLint.Proofs.Walk

/-!
The rules on remasked nodes. A rule looks at the shape of a layer and at the constants in it; masks
matter to it only in judgements, and in the name of a receiver that has no such method.
-/

namespace FlowLint

variable {M : Mask → Mask → Prop}

namespace Context

variable (c : Context)

section Shapes

variable {α : Type} (f g : α → Expr) {e e' : Expr}

theorem primitiveMisuse_map (t : TypeReference α) :
    primitiveMisuse (t.map f) = primitiveMisuse (t.map g) := by
  obtain ⟨name, resolution, span⟩ := t
  cases name <;> rfl

theorem reference_map (t : TypeReference α) : c.reference (t.map f) = c.reference (t.map g) := by
  obtain ⟨name, resolution, span⟩ := t
  cases name <;> rfl

theorem unpacks_map (call : Call α) : (call.map f).unpacks = (call.map g).unpacks := by
  simp [Call.unpacks, Call.map, Argument.map, Function.comp_def]

theorem variableUse_map (v : Variable α) (span : e'.span = e.span) (access : e'.access = e.access) :
    variableUse e (v.map f) = variableUse e' (v.map g) := by
  obtain ⟨name, kind, maybe⟩ := v
  simp only [variableUse, span, access]
  cases name <;> rfl

theorem instantiation_map (t : TypeReference α) (span : e'.span = e.span) :
    c.instantiation e (t.map f) = c.instantiation e' (t.map g) := by
  simp only [instantiation, primitiveMisuse_map f g, span]
  rfl

theorem deprecation_map (call : Call α) (span : e'.span = e.span) :
    c.deprecation e (call.map f) = c.deprecation e' (call.map g) := by
  obtain ⟨callee, target, arguments, nameSpan⟩ := call
  cases callee <;> simp only [deprecation, Call.map, Callee.map, span]

theorem argumentCount_map (call : Call α) (span : e'.span = e.span) :
    c.argumentCount e (call.map f) = c.argumentCount e' (call.map g) := by
  have name (target : RoutineSymbol) : c.calledName (call.map f).callee target =
      c.calledName (call.map g).callee target := by
    obtain ⟨callee, _, _, _⟩ := call
    cases callee <;> rfl
  have given : (call.map f).arguments.length = (call.map g).arguments.length := by
    simp [Call.map]
  simp only [argumentCount, unpacks_map f g, name, given, Call.target_map, span]

theorem staticCall_map (call : Call α) (t : TypeReference α) (name : Name α)
    (span : e'.span = e.span) :
    c.staticCall e (call.map f) (t.map f) (name.map f) =
      c.staticCall e' (call.map g) (t.map g) (name.map g) := by
  have direct : (name.map f).direct? = (name.map g).direct? := by cases name <;> rfl
  have text : (t.map f).text = (t.map g).text := by
    obtain ⟨name, resolution, span⟩ := t
    cases name <;> rfl
  have type : c.type? (t.map f) = c.type? (t.map g) := rfl
  simp only [staticCall, abstractCall, methodName, primitiveMisuse_map f g t, direct, text, type,
    Call.target_map, Call.nameSpan_map, c.deprecation_map f g call span, span]

end Shapes

theorem callsParentConstructor_map {α : Type} (f g : α → Expr) (call : Call α) :
    callsParentConstructor (call.map f) = callsParentConstructor (call.map g) := by
  obtain ⟨callee, target, arguments, nameSpan⟩ := call
  cases callee with
  | static type name =>
    obtain ⟨typeName, resolution, span⟩ := type
    cases name <;> cases typeName <;> rfl
  | _ => rfl

theorem selfAssignment_remasked {e e' target target' value value' : Expr}
    (targets : target.Remasked M target') (values : value.Remasked M value')
    (span : e'.span = e.span) :
    selfAssignment e target value = selfAssignment e' target' value' := by
  obtain ⟨⟨first, -⟩, -⟩ := targets
  obtain ⟨⟨second, -⟩, -⟩ := values
  simp only [selfAssignment, span]
  -- what is assigned matters only if it is a variable that is assigned to
  cases first with
  | var v =>
    cases second with
    | var w =>
      obtain ⟨name, -, -⟩ := v
      obtain ⟨other, -, -⟩ := w
      cases name <;> cases other <;> rfl
    | _ => rfl
  | _ => rfl

theorem formatCount_remasked {e e' : Expr} (call : Call (Expr × Expr)) (function : String)
    (span : e'.span = e.span)
    (related : ∀ argument ∈ call.arguments, argument.value.1.Remasked M argument.value.2) :
    formatCount e (call.map Prod.fst) function = formatCount e' (call.map Prod.snd) function := by
  obtain ⟨callee, target, arguments, nameSpan⟩ := call
  simp only [formatCount, span, Call.map, List.length_map]
  cases arguments with
  | nil => rfl
  | cons first rest =>
    have constant := (related first List.mem_cons_self).constant
    simp [Argument.map, constant]

theorem isParentCall_remasked {n n' : Node} (remasked : n.Remasked M n') :
    n'.isParentCall = n.isParentCall := by
  cases remasked with
  | @expr e e' related =>
    have layers := related.form
    simp only [Node.isParentCall]
    generalize e.form = form, e'.form = form' at layers
    obtain ⟨layer, -⟩ := layers
    cases layer with
    | call call => exact callsParentConstructor_map _ _ call
    | _ => rfl
  | _ => rfl

theorem unreachableCode_remasked {g g' : Graph} (remasked : g.Remasked M g') :
    unreachableCode g' = unreachableCode g := by
  have source (id : Nat) : sourceOf g' id = sourceOf g id := by
    have blocks := remasked.block? id
    unfold sourceOf
    generalize g.block? id = block, g'.block? id = block' at blocks
    cases blocks with
    | none => rfl
    | some related =>
      simp only [Option.bind_some, related.statements.filterMap_eq fun _ _ same => same.span]
  simp only [unreachableCode, unreachableIds, remasked.unreachable, source]

/-- A relation between what is said about a node and what is said if the masks in it are others. It
relates the judgements on remasked values, and lists that consist of related parts. -/
structure Tolerates (M : Mask → Mask → Prop) (T : List Remark → List Remark → Prop) : Prop where
  refl (rs : List Remark) : T rs rs
  append {first first' second second' : List Remark} : T first first' → T second second' →
    T (first ++ second) (first' ++ second')
  judge {value value' : Expr} : value.Remasked M value' → ∀ j,
    T (c.judge value j) (c.judge value' j)
  undefinedMethod {receiver receiver' : Expr} : receiver.Remasked M receiver' →
    ∀ condition span method,
      T (remarkIf condition span (.undefinedMethod (c.receiverName receiver) method))
        (remarkIf condition span (.undefinedMethod (c.receiverName receiver') method))

namespace Tolerates

variable {c : Context} {T : List Remark → List Remark → Prop} (tolerates : c.Tolerates M T)

include tolerates

theorem of_eq {first second : List Remark} (same : first = second) : T first second :=
  same ▸ tolerates.refl first

theorem flatMap {α β : Type} {R : α → β → Prop} {f : α → List Remark} {f' : β → List Remark}
    {l : List α} {l' : List β} (related : List.Forall₂ R l l')
    (each : ∀ a b, R a b → T (f a) (f' b)) : T (l.flatMap f) (l'.flatMap f') :=
  related.flatMap_of_append (tolerates.refl []) tolerates.append each

theorem items (seen : List ArrayKey) {list : List (ArrayItem (Expr × Expr))}
    (related : ∀ item ∈ list, (∀ key ∈ item.key, key.1.Remasked M key.2) ∧
      item.value.1.Remasked M item.value.2) :
    T (c.items seen (list.map (·.map Prod.fst))) (c.items seen (list.map (·.map Prod.snd))) := by
  induction list generalizing seen with
  | nil => exact tolerates.refl []
  | cons item rest ih =>
    have later (seen : List ArrayKey) := ih seen fun other member =>
      related other (List.mem_cons_of_mem item member)
    obtain ⟨keys, values⟩ := related item List.mem_cons_self
    obtain ⟨key, value⟩ := item
    cases key with
    | none => exact later seen
    | some key =>
      have judged := tolerates.judge (keys key rfl) .key
      have constant := (keys key rfl).constant
      have keySpan := (keys key rfl).span
      have valueSpan : value.2.span = value.1.span := values.span
      simp only [List.map_cons, items_cons, ArrayItem.map, Option.map_some, constant, keySpan,
        valueSpan]
      refine tolerates.append judged ?_
      generalize key.1.constant.bind Constant.arrayKey = stored
      cases stored with
      | none => exact later seen
      | some k => exact tolerates.append (tolerates.refl _) (later (k :: seen))

theorem functionCall {e e' : Expr} (call : Call (Expr × Expr)) (name : Name (Expr × Expr))
    (span : e'.span = e.span)
    (callee : ∀ value, name = .indirect value → value.1.Remasked M value.2)
    (arguments : ∀ argument ∈ call.arguments, argument.value.1.Remasked M argument.value.2) :
    T (c.functionCall e (call.map Prod.fst) (name.map Prod.fst))
      (c.functionCall e' (call.map Prod.snd) (name.map Prod.snd)) := by
  cases name with
  | direct function =>
    apply tolerates.of_eq
    simp only [Context.functionCall, Name.map, Call.target_map, Call.nameSpan_map, span,
      c.deprecation_map Prod.fst Prod.snd call span,
      formatCount_remasked call function span arguments]
  | indirect value =>
    simp only [Name.map, functionCall_indirect, span]
    exact tolerates.judge (callee value rfl) (.callee e.span)

theorem methodCall {e e' : Expr} (call : Call (Expr × Expr)) (receiver : Expr × Expr)
    (name : Name (Expr × Expr)) (span : e'.span = e.span)
    (related : receiver.1.Remasked M receiver.2) :
    T (c.methodCall e (call.map Prod.fst) receiver.1 (name.map Prod.fst))
      (c.methodCall e' (call.map Prod.snd) receiver.2 (name.map Prod.snd)) := by
  have method : methodName (name.map Prod.fst) = methodName (name.map Prod.snd) := by
    cases name <;> rfl
  have deprecated := tolerates.of_eq (c.deprecation_map Prod.fst Prod.snd call span)
  rw [methodCall_eq, methodCall_eq, method, Call.target_map, Call.target_map, Call.nameSpan_map,
    Call.nameSpan_map, span]
  exact tolerates.append (tolerates.append (tolerates.judge related _) deprecated)
    (tolerates.undefinedMethod related _ _ _)

theorem callee {e e' : Expr} (call : Call (Expr × Expr)) (span : e'.span = e.span)
    (related : ∀ pair ∈ (Form.call call).exprs, pair.1.Remasked M pair.2) :
    T (c.callee e (call.map Prod.fst)) (c.callee e' (call.map Prod.snd)) := by
  have arguments : ∀ argument ∈ call.arguments, argument.value.1.Remasked M argument.value.2 := by
    intro argument member
    apply related argument.value
    apply Form.mem_exprs_of_part
    exact List.mem_append_right _ (List.mem_map.2 ⟨argument, member, rfl⟩)
  have parts : ∀ value, .expr value ∈ call.callee.parts → value.1.Remasked M value.2 :=
    fun value part => related value (Form.mem_exprs_of_part (List.mem_append_left _ part))
  unfold Context.callee
  cases form : call.callee with
  | function name =>
    have named : ∀ value, name = .indirect value → value.1.Remasked M value.2 := by
      rintro value rfl
      exact parts value (by simp [form, Callee.parts, Name.parts])
    simpa only [Call.map, form, Callee.map] using
      tolerates.functionCall call name span named arguments
  | method receiver name =>
    have received := parts receiver (by simp [form, Callee.parts])
    simpa only [Call.map, form, Callee.map] using
      tolerates.methodCall call receiver name span received
  | static type name =>
    have same := tolerates.of_eq (c.staticCall_map Prod.fst Prod.snd call type name span)
    simpa only [Call.map, form, Callee.map] using same
  | new type =>
    have same := tolerates.of_eq (c.instantiation_map Prod.fst Prod.snd type span)
    simpa only [Call.map, form, Callee.map] using same

theorem assertion {e e' : Expr} (arguments : List (Argument (Expr × Expr)))
    (span : e'.span = e.span)
    (related : ∀ argument ∈ arguments, argument.value.1.Remasked M argument.value.2) :
    T (c.assertion e (arguments.map (·.map Prod.fst)))
      (c.assertion e' (arguments.map (·.map Prod.snd))) := by
  cases arguments with
  | nil => exact tolerates.of_eq (by simp only [Context.assertion, span, List.map_nil])
  | cons first rest =>
    have firsts := related first List.mem_cons_self
    have constant : (first.map Prod.snd).value.constant = (first.map Prod.fst).value.constant :=
      firsts.constant
    simp only [List.map_cons, assertion_cons, span, constant, List.length_cons, List.length_map]
    exact tolerates.append (tolerates.append (tolerates.refl _) (tolerates.judge firsts .asserted))
      (tolerates.refl _)

/-- One case for each kind of expression: of those that are judged the parts are compared, of all
others the shape is enough. -/
theorem enterExpr {e e' : Expr} (remasked : e.Remasked M e') :
    T (c.enterExpr e) (c.enterExpr e') := by
  have span := remasked.span
  have access := remasked.access
  have layers := remasked.form
  unfold Context.enterExpr
  generalize e.form = form, e'.form = form' at layers
  obtain ⟨layer, related⟩ := layers
  cases layer with
  | var v => exact tolerates.of_eq (variableUse_map _ _ v span access)
  | assign target value =>
    have targets := related target (Form.mem_exprs_of_part (by simp [Form.parts]))
    have values := related value (Form.mem_exprs_of_part (by simp [Form.parts]))
    exact tolerates.of_eq (selfAssignment_remasked targets values span)
  | array list =>
    have unread := tolerates.of_eq (by rw [span, access] :
      remarkIf e.access.isNone e.span .valueNotRead =
        remarkIf e'.access.isNone e'.span .valueNotRead)
    have parts {item : ArrayItem (Expr × Expr)} (member : item ∈ list) {value : Expr × Expr}
        (part : .expr value ∈ item.key.toList.map Part.expr ++ [Part.expr item.value]) :
        value.1.Remasked M value.2 :=
      related value (Form.mem_exprs_of_part (List.mem_flatMap.2 ⟨item, member, part⟩))
    refine tolerates.append unread (tolerates.items [] fun item member => ⟨?_, ?_⟩)
    · intro key present
      apply parts member
      exact List.mem_append_left _ (List.mem_map.2 ⟨key, Option.mem_toList.2 present, rfl⟩)
    · exact parts member (List.mem_append_right _ (List.mem_singleton.2 rfl))
  | eval code => exact tolerates.of_eq (by simp only [Form.map, evalUse, span])
  | call call => exact tolerates.callee call span related
  | instanceOf operand type => exact tolerates.of_eq (primitiveMisuse_map _ _ type)
  | field access =>
    obtain ⟨receiver, type, name, kind⟩ := access
    cases type with
    | none => exact tolerates.refl []
    | some type =>
      exact tolerates.append (tolerates.of_eq (primitiveMisuse_map _ _ type)) (tolerates.refl [])
  | _ => exact tolerates.refl []

theorem leaveExpr {e e' : Expr} (remasked : e.Remasked M e') :
    T (c.leaveExpr e) (c.leaveExpr e') := by
  have span := remasked.span
  have layers := remasked.form
  unfold Context.leaveExpr
  generalize e.form = form, e'.form = form' at layers
  obtain ⟨layer, related⟩ := layers
  cases layer with
  | binary op left right =>
    have values := related right (Form.mem_exprs_of_part (by simp [Form.parts]))
    cases op with
    | div => exact tolerates.of_eq (by simp only [Form.map, division, values.span, values.constant])
    | _ => exact tolerates.refl []
  | unary op operand =>
    have values := related operand (Form.mem_exprs_of_part (by simp [Form.parts]))
    cases op with
    | clone =>
      simp only [Form.map, clone_eq, span]
      exact tolerates.judge values (.cloned e.span)
    | _ => exact tolerates.refl []
  | conversion target operand implicit =>
    have values := related operand (Form.mem_exprs_of_part (by simp [Form.parts]))
    cases implicit with
    | false =>
      simp only [Form.map, redundantCast_eq, span]
      exact tolerates.judge values (.cast e.span target)
    | true => exact tolerates.refl []
  | assert arguments =>
    refine tolerates.assertion arguments span fun argument member => related argument.value ?_
    exact Form.mem_exprs_of_part (List.mem_map.2 ⟨argument, member, rfl⟩)
  | call call => exact tolerates.of_eq (c.argumentCount_map _ _ call span)
  | _ => exact tolerates.refl []

theorem statement (around : Surroundings) {s s' : Statement} (remasked : s.Remasked M s') :
    T (c.statement around s) (c.statement around s') := by
  obtain ⟨form, span⟩ := s
  obtain ⟨form', span'⟩ := s'
  obtain rfl : span' = span := remasked.span
  cases remasked.form with
  | @«return» value value' values =>
    have voids : value'.isSome = value.isSome := values.isSome_eq
    change T (c.returnStatement around ⟨.return value, span'⟩ value)
      (c.returnStatement around ⟨.return value', span'⟩ value')
    rw [returnStatement_eq, returnStatement_eq, voids]
    refine tolerates.append (tolerates.append ?_ (tolerates.refl _)) (tolerates.refl _)
    cases values with
    | none => exact tolerates.refl _
    | some related => exact tolerates.judge related (.returned span')
  | _ => exact tolerates.refl _

theorem enter (around : Surroundings) {n n' : Node} (remasked : n.Remasked M n') :
    T (c.enter around n) (c.enter around n') := by
  cases remasked with
  | block => exact tolerates.refl []
  | header related =>
    refine tolerates.flatMap related.types fun _ _ types => ?_
    obtain ⟨type, -⟩ := types
    exact tolerates.of_eq (primitiveMisuse_map _ _ type)
  | statement related => exact tolerates.statement around related
  | edge => exact tolerates.refl []
  | expr related => exact tolerates.enterExpr related
  | type related =>
    obtain ⟨type, -⟩ := related
    exact tolerates.of_eq (c.reference_map _ _ type)

theorem leave {n n' : Node} (remasked : n.Remasked M n') : T (c.leave n) (c.leave n') := by
  cases remasked with
  | expr related => exact tolerates.leaveExpr related
  | edge related =>
    cases related with
    | foreach _ collection => exact tolerates.judge collection .iterated
    | _ => exact tolerates.refl []
  | _ => exact tolerates.refl []

theorem remarks (around : Surroundings) {n n' : Node} (remasked : n.Remasked M n') :
    T (c.remarks around n) (c.remarks around n') := by
  refine tolerates.flatMap remasked.visit fun step step' related => ?_
  cases related with
  | enter related => exact tolerates.enter around related
  | leave related => exact tolerates.leave related

/-- The walks go through corresponding blocks in the same regions, and the rules on the routine as a
whole see no mask at all. -/
theorem routine {g g' : Graph} (remasked : g.Remasked M g') : T (c.routine g) (c.routine g') := by
  have calls : (c.walk g').callsParent = (c.walk g).callsParent := by
    rw [walk_callsParent, walk_callsParent]
    exact remasked.entered.any_eq fun _ _ related => isParentCall_remasked related
  rw [Context.routine, Context.routine, calls, remasked.labels, unreachableCode_remasked remasked]
  refine tolerates.append (tolerates.append (tolerates.append ?_ (tolerates.refl _))
    (tolerates.refl _)) (tolerates.refl _)
  rw [walk_found, walk_found, remasked.plan_eq]
  refine tolerates.flatMap remasked.reachableBlocks fun b b' related => ?_
  rw [related.ordinal]
  exact tolerates.remarks _ (.block related)

end Tolerates

end Context

end FlowLint
