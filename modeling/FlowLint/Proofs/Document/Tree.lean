import FlowLint.Document.Tree
import FlowLint.Graph.Visit
import FlowLint.Proofs.Document.Value

/-!
Expressions are read again as they are written. The shapes of a layer keep their parts if the
reader of the parts does; an expression is kept by induction on the depth to which it is read.
-/

namespace FlowLint

open Json (Decoder)
open Json.Decoder

variable {α : Type} {part : Decoder α} {write : α → Json} {level : Nat}

theorem Access.keeps (a : Access) : Access.decode.Keeps Access.encode level a := by
  refine .record rfl rfl (by decide) ?_
  intro inner fields _ read
  simp only [bind_eq_some, return_eq_some] at read ⊢
  rcases read with ⟨read, h1, write, h2, unset, h3, quiet, h4, rfl⟩
  exact ⟨_, (keeps_bool _).withDefault rfl h1 rfl,
    _, (keeps_bool _).withDefault rfl h2 rfl,
    _, (keeps_bool _).withDefault rfl h3 rfl,
    _, (keeps_bool _).withDefault rfl h4 rfl, rfl⟩

theorem BinaryOp.keeps (op : BinaryOp) : BinaryOp.decode.Keeps (fun op => .text op.tag) level op :=
  .plain rfl

theorem UnaryOp.keeps (op : UnaryOp) : UnaryOp.decode.Keeps (fun op => .text op.tag) level op :=
  .plain rfl

theorem VariableKind.keeps (k : VariableKind) :
    VariableKind.decode.Keeps (fun k => .text k.tag) level k :=
  .plain rfl

theorem ReservedType.keeps (t : ReservedType) :
    ReservedType.decode.Keeps (fun t => .text t.tag) level t :=
  .plain rfl

theorem FieldKind.keeps (k : FieldKind) :
    FieldKind.decode.Keeps (fun k => .text k.tag) level k :=
  .plain rfl

def Part.All (holds : α → Prop) : Part α → Prop
  | .expr value => holds value
  | .type t => ∀ value, t.name = .indirect value → holds value

theorem Name.keeps {n : Name α} (inside : ∀ p ∈ n.parts, p.All (part.KeepsAlways write)) :
    (Name.decode part).Keeps (Name.encode write) level n := by
  refine .carrying fun inner _ => ?_
  simp only [List.forall_mem_cons]
  refine ⟨.map (fun _ _ => keeps_string _) fun _ => rfl, .map (fun value same => ?_) fun _ => rfl,
    nofun⟩
  subst same
  exact inside _ List.mem_cons_self inner

theorem Variable.keeps {v : Variable α}
    (inside : ∀ p ∈ v.name.parts, p.All (part.KeepsAlways write)) :
    (Variable.decode part).Keeps (Variable.encode write) level v := by
  refine .record rfl rfl (by decide) ?_
  intro inner fields _ read
  simp only [bind_eq_some, return_eq_some] at read ⊢
  rcases read with ⟨name, h1, kind, h2, maybe, h3, rfl⟩
  exact ⟨_, (Name.keeps inside).required h1 rfl,
    _, kind.keeps.withDefault plain_text h2 rfl,
    _, (keeps_bool _).withDefault rfl h3 rfl, rfl⟩

theorem TypeName.keeps {n : TypeName α}
    (inside : ∀ value, n = .indirect value → part.KeepsAlways write value) :
    (TypeName.decode part).Keeps (TypeName.encode write) level n := by
  refine .carrying fun inner _ => ?_
  simp only [List.forall_mem_cons]
  refine ⟨.record (by decide) fun _ _ _ read => ?_, .map (fun p _ => p.keeps) fun _ => rfl,
    .map (fun t _ => t.keeps) fun _ => rfl, .map (fun value same => ?_) fun _ => rfl, nofun⟩
  · simp only [bind_eq_some, return_eq_some] at read
    rcases read with ⟨name, h1, rfl⟩
    refine ⟨_, rfl, rfl, ?_⟩
    simp only [bind_eq_some, return_eq_some]
    exact ⟨_, (keeps_string _).required h1 rfl, rfl⟩
  · exact inside value same.symm inner

theorem TypeResolution.keeps (r : TypeResolution) :
    TypeResolution.decode.Keeps TypeResolution.encode level r := by
  refine .choice (fun plain => ?_) fun inner _ => ?_
  · revert r
    simp [encode]
  · simp only [List.forall_mem_singleton]
    exact .map (fun _ _ => keeps_natural _) fun _ => rfl

theorem TypeReference.keeps {t : TypeReference α}
    (inside : (Part.type t).All (part.KeepsAlways write)) :
    (TypeReference.decode part).Keeps (TypeReference.encode write) level t := by
  refine .record rfl rfl (by decide) ?_
  intro inner fields _ read
  simp only [bind_eq_some, return_eq_some] at read ⊢
  rcases read with ⟨name, h1, resolution, h2, span, h3, rfl⟩
  exact ⟨_, (TypeName.keeps inside).required h1 rfl,
    _, resolution.keeps.required h2 rfl,
    _, Keeps.optionalField record_rejects (fun s _ => s.keeps) h3 rfl, rfl⟩

theorem ArrayItem.keeps {item : ArrayItem α} (rejects : part.RejectsNull)
    (key : ∀ value ∈ item.key, part.KeepsAlways write value)
    (value : part.KeepsAlways write item.value) :
    (ArrayItem.decode part).Keeps (ArrayItem.encode write) level item := by
  refine .record rfl rfl (by decide) ?_
  intro inner fields _ read
  simp only [bind_eq_some, return_eq_some] at read ⊢
  rcases read with ⟨_, h1, _, h2, rfl⟩
  exact ⟨_, Keeps.optionalField rejects (fun k present => key k present inner) h1 rfl,
    _, (value inner).required h2 rfl, rfl⟩

theorem Argument.keeps {argument : Argument α} (value : part.KeepsAlways write argument.value) :
    (Argument.decode part).Keeps (Argument.encode write) level argument := by
  refine .record rfl rfl (by decide) ?_
  intro inner fields _ read
  simp only [bind_eq_some, return_eq_some] at read ⊢
  rcases read with ⟨_, h1, _, h2, rfl⟩
  exact ⟨_, (value inner).required h1 rfl,
    _, (keeps_bool _).withDefault rfl h2 rfl, rfl⟩

theorem CallTarget.keeps (t : CallTarget) :
    CallTarget.decode.Keeps CallTarget.encode level t := by
  refine .choice (fun plain => ?_) fun inner _ => ?_
  · revert t
    simp [encode]
  · simp only [List.forall_mem_cons]
    exact ⟨.map (fun _ _ => keeps_natural _) fun _ => rfl,
      .map (fun _ _ => .list fun _ _ _ _ => keeps_natural _) fun _ => rfl, nofun⟩

theorem Callee.keeps {c : Callee α} (inside : ∀ p ∈ c.parts, p.All (part.KeepsAlways write)) :
    (Callee.decode part).Keeps (Callee.encode write) level c := by
  refine .carrying fun inner _ => ?_
  simp only [List.forall_mem_cons]
  refine ⟨?function, ?method, ?static, ?new, nofun⟩
  case function =>
    apply KeepsCase.record (by decide)
    intro _ _ _ read
    simp only [bind_eq_some, return_eq_some] at read ⊢
    rcases read with ⟨name, h1, rfl⟩
    exact ⟨_, rfl, rfl, _, (Name.keeps inside).required h1 rfl, rfl⟩
  case method =>
    apply KeepsCase.record (by decide)
    intro _ _ _ read
    simp only [bind_eq_some, return_eq_some] at read ⊢
    rcases read with ⟨receiver, h1, name, h2, rfl⟩
    rw [Callee.parts, List.forall_mem_cons] at inside
    exact ⟨_, rfl, rfl, _, (inside.1 _).required h1 rfl,
      _, (Name.keeps inside.2).required h2 rfl, rfl⟩
  case static =>
    apply KeepsCase.record (by decide)
    intro _ _ _ read
    simp only [bind_eq_some, return_eq_some] at read ⊢
    rcases read with ⟨type, h1, name, h2, rfl⟩
    rw [Callee.parts, List.forall_mem_cons] at inside
    exact ⟨_, rfl, rfl, _, (TypeReference.keeps inside.1).required h1 rfl,
      _, (Name.keeps inside.2).required h2 rfl, rfl⟩
  case new =>
    apply KeepsCase.record (by decide)
    intro _ _ _ read
    simp only [bind_eq_some, return_eq_some] at read ⊢
    rcases read with ⟨type, h1, rfl⟩
    exact ⟨_, rfl, rfl, _, (TypeReference.keeps (inside _ List.mem_cons_self)).required h1 rfl, rfl⟩

theorem Call.keeps {c : Call α}
    (inside : ∀ p ∈ c.callee.parts ++ c.arguments.map (fun a => Part.expr a.value),
      p.All (part.KeepsAlways write)) :
    (Call.decode part).Keeps (Call.encode write) level c := by
  refine .record rfl rfl (by decide) ?_
  intro inner fields _ read
  simp only [bind_eq_some, return_eq_some] at read ⊢
  rcases read with ⟨callee, h1, target, h2, arguments, h3, nameSpan, h4, rfl⟩
  rw [List.forall_mem_append, List.forall_mem_map] at inside
  -- the callee is an object, so that a list may be opened beside it
  obtain ⟨j, -, opens⟩ := Option.bind_eq_some_iff.1 h1
  obtain ⟨deeper, -, -, rfl, -⟩ := carrying_eq_some opens
  have argumentsKept : (Decoder.list (Argument.decode part)).Keeps (.list (Argument.encode write))
      (deeper + 1) arguments := .list fun _ _ a member => Argument.keeps (inside.2 a member)
  exact ⟨_, (Callee.keeps inside.1).required h1 rfl,
    _, target.keeps.required h2 rfl,
    _, argumentsKept.withDefault rfl h3 rfl,
    _, Keeps.optionalField record_rejects (fun s _ => s.keeps) h4 rfl, rfl⟩

theorem FieldAccess.keeps {f : FieldAccess α} (rejects : part.RejectsNull)
    (receiver : ∀ value ∈ f.receiver, part.KeepsAlways write value)
    (type : ∀ t ∈ f.containingType, (Part.type t).All (part.KeepsAlways write)) :
    (FieldAccess.decode part).Keeps (FieldAccess.encode write) level f := by
  refine .record rfl rfl (by decide) ?_
  intro inner fields _ read
  simp only [bind_eq_some, return_eq_some] at read ⊢
  rcases read with ⟨_, h1, _, h2, name, h3, kind, h4, rfl⟩
  exact ⟨_, Keeps.optionalField rejects (fun r present => receiver r present inner) h1 rfl,
    _, Keeps.optionalField record_rejects (fun t present => TypeReference.keeps (type t present))
      h2 rfl,
    _, (keeps_string _).required h3 rfl,
    _, kind.keeps.withDefault plain_text h4 rfl, rfl⟩

theorem Form.keeps {f : Form α} (rejects : part.RejectsNull)
    (noDouble : ∀ d, f ≠ .literal (.double d))
    (inside : ∀ p ∈ f.parts, p.All (part.KeepsAlways write)) :
    (Form.decode part).Keeps (Form.encode write) level f := by
  refine .carrying fun inner _ => ?_
  simp only [List.forall_mem_cons]
  refine ⟨?literal, ?var, ?assign, ?compoundAssign, ?array, ?arrayItem, ?binary, ?unary,
    ?conversion, ?conditional, ?concat, ?call, ?load, ?eval, ?assert, ?instanceOf, ?field, ?isset,
    ?exit, nofun⟩
  case literal =>
    refine .map (fun c same => Constant.keeps fun d double => ?_) fun _ => rfl
    exact noDouble d (by rw [← same, double])
  case var =>
    refine .map (fun v same => ?_) fun _ => rfl
    subst same
    exact Variable.keeps inside
  case assign =>
    apply KeepsCase.record (by decide)
    intro _ _ _ read
    simp only [bind_eq_some, return_eq_some] at read ⊢
    rcases read with ⟨target, h1, value, h2, rfl⟩
    simp only [parts, List.forall_mem_cons] at inside
    exact ⟨_, rfl, rfl, _, (inside.1 _).required h1 rfl,
      _, (inside.2.1 _).required h2 rfl, rfl⟩
  case compoundAssign =>
    apply KeepsCase.record (by decide)
    intro _ _ _ read
    simp only [bind_eq_some, return_eq_some] at read ⊢
    rcases read with ⟨op, h1, target, h2, value, h3, rfl⟩
    simp only [parts, List.forall_mem_cons] at inside
    exact ⟨_, rfl, rfl, _, op.keeps.required h1 rfl,
      _, (inside.1 _).required h2 rfl,
      _, (inside.2.1 _).required h3 rfl, rfl⟩
  case array =>
    refine .map (fun items same => .list fun _ _ item member => ?_) fun _ => rfl
    subst same
    have insideItem := fun p found => inside p (List.mem_flatMap.2 ⟨item, member, found⟩)
    rw [List.forall_mem_append, List.forall_mem_map] at insideItem
    exact ArrayItem.keeps rejects (fun k present => insideItem.1 k (Option.mem_toList.2 present))
      (insideItem.2 _ List.mem_cons_self)
  case arrayItem =>
    apply KeepsCase.record (by decide)
    intro _ _ _ read
    simp only [bind_eq_some, return_eq_some] at read ⊢
    rcases read with ⟨container, h1, index, h2, rfl⟩
    simp only [parts, List.forall_mem_cons, List.forall_mem_map, Option.mem_toList] at inside
    exact ⟨_, rfl, rfl, _, (inside.1 _).required h1 rfl,
      _, Keeps.optionalField rejects (fun i present => inside.2 i present _) h2 rfl, rfl⟩
  case binary =>
    apply KeepsCase.record (by decide)
    intro _ _ _ read
    simp only [bind_eq_some, return_eq_some] at read ⊢
    rcases read with ⟨op, h1, left, h2, right, h3, rfl⟩
    simp only [parts, List.forall_mem_cons] at inside
    exact ⟨_, rfl, rfl, _, op.keeps.required h1 rfl,
      _, (inside.1 _).required h2 rfl,
      _, (inside.2.1 _).required h3 rfl, rfl⟩
  case unary =>
    apply KeepsCase.record (by decide)
    intro _ _ _ read
    simp only [bind_eq_some, return_eq_some] at read ⊢
    rcases read with ⟨op, h1, operand, h2, rfl⟩
    simp only [parts, List.forall_mem_cons] at inside
    exact ⟨_, rfl, rfl, _, op.keeps.required h1 rfl,
      _, (inside.1 _).required h2 rfl, rfl⟩
  case conversion =>
    apply KeepsCase.record (by decide)
    intro _ _ _ read
    simp only [bind_eq_some, return_eq_some] at read ⊢
    rcases read with ⟨target, h1, operand, h2, implicit, h3, rfl⟩
    simp only [parts, List.forall_mem_cons] at inside
    exact ⟨_, rfl, rfl, _, target.keeps.required h1 rfl,
      _, (inside.1 _).required h2 rfl,
      _, (keeps_bool _).withDefault rfl h3 rfl, rfl⟩
  case conditional =>
    apply KeepsCase.record (by decide)
    intro _ _ _ read
    simp only [bind_eq_some, return_eq_some] at read ⊢
    rcases read with ⟨condition, h1, ifTrue, h2, ifFalse, h3, rfl⟩
    simp only [parts, List.cons_append, List.forall_mem_cons, List.forall_mem_append,
      List.forall_mem_map, Option.mem_toList] at inside
    exact ⟨_, rfl, rfl, _, (inside.1 _).required h1 rfl,
      _, Keeps.optionalField rejects (fun t present => inside.2.1 t present _) h2 rfl,
      _, (inside.2.2.1 _).required h3 rfl, rfl⟩
  case concat =>
    refine .map (fun values same => .list fun _ _ value member => ?_) fun _ => rfl
    subst same
    exact inside _ (List.mem_map_of_mem member) _
  case call =>
    refine .map (fun c same => ?_) fun _ => rfl
    subst same
    exact Call.keeps inside
  case load =>
    refine .map (fun file same => ?_) fun _ => rfl
    subst same
    exact inside _ List.mem_cons_self _
  case eval =>
    refine .map (fun code same => ?_) fun _ => rfl
    subst same
    exact inside _ List.mem_cons_self _
  case assert =>
    refine .map (fun arguments same => .list fun _ _ argument member => ?_) fun _ => rfl
    subst same
    exact Argument.keeps (inside _ (List.mem_map.2 ⟨argument, member, rfl⟩))
  case instanceOf =>
    apply KeepsCase.record (by decide)
    intro _ _ _ read
    simp only [bind_eq_some, return_eq_some] at read ⊢
    rcases read with ⟨operand, h1, type, h2, rfl⟩
    simp only [parts, List.forall_mem_cons] at inside
    exact ⟨_, rfl, rfl, _, (inside.1 _).required h1 rfl,
      _, (TypeReference.keeps inside.2.1).required h2 rfl, rfl⟩
  case field =>
    refine .map (fun access same => ?_) fun _ => rfl
    subst same
    simp only [parts, List.forall_mem_append, List.forall_mem_map, Option.mem_toList] at inside
    exact FieldAccess.keeps rejects inside.1 inside.2
  case isset =>
    refine .map (fun values same => .list fun _ _ value member => ?_) fun _ => rfl
    subst same
    exact inside _ (List.mem_map_of_mem member) _
  case exit =>
    refine .map (fun status same => .optional rejects fun value present => ?_) fun _ => rfl
    subst same
    exact inside _ (List.mem_map_of_mem (Option.mem_toList.2 present)) _

theorem Json.list_map {β : Type} (write : β → Json) (f : α → β) (l : List α) :
    Json.list write (l.map f) = Json.list (write ∘ f) l := by
  rw [Json.list, List.map_map, Json.list]

theorem Json.optional_map {β : Type} (write : β → Json) (f : α → β) (o : Option α) :
    Json.optional write (o.map f) = Json.optional (write ∘ f) o := by
  cases o <;> rfl

variable (write : α → Json)

theorem Name.encode_map (n : Name α) : (n.map write).encode id = n.encode write := by
  cases n <;> rfl

theorem TypeReference.encode_map : TypeReference.encode id ∘ TypeReference.map write =
    TypeReference.encode write := by
  funext t
  obtain ⟨name, resolution, span⟩ := t
  cases name <;> rfl

theorem ArrayItem.encode_map :
    ArrayItem.encode id ∘ ArrayItem.map write = ArrayItem.encode write := by
  funext item
  simp only [Function.comp_apply, encode, map, Json.optional_map, Function.id_comp, id_eq]

theorem Argument.encode_map : Argument.encode id ∘ Argument.map write = Argument.encode write := rfl

theorem Callee.encode_map (c : Callee α) : (c.map write).encode id = c.encode write := by
  have types (t : TypeReference α) := congrFun (TypeReference.encode_map write) t
  cases c <;> simp_all [map, encode, Name.encode_map]

theorem Form.encode_map (f : Form α) : (f.map write).encode id = f.encode write := by
  have types (t : TypeReference α) := congrFun (TypeReference.encode_map write) t
  cases f <;>
    simp_all [map, encode, tag, payload, Variable.map, Variable.encode, Call.map, Call.encode,
      FieldAccess.map, FieldAccess.encode, Json.list_map, Json.optional_map, Name.encode_map,
      ArrayItem.encode_map, Argument.encode_map, Callee.encode_map, TypeReference.encode_map]

/-- The constants at a node: the value that an expression is known to have, and that of a
literal. -/
def Node.constants : Node → List Constant
  | .expr e =>
    (match e.form with
      | .literal value => [value]
      | _ => []) ++ e.constant.toList
  | _ => []

def Node.DoubleFree (n : Node) : Prop :=
  ∀ m ∈ n.entered, ∀ c ∈ m.constants, ∀ d, c ≠ .double d

theorem Node.doubleFree_iff {n : Node} :
    n.DoubleFree ↔ (∀ c ∈ n.constants, ∀ d, c ≠ .double d) ∧ ∀ m ∈ n.children, m.DoubleFree := by
  unfold DoubleFree
  rw [entered_eq, List.forall_mem_cons, List.forall_mem_flatMap]

namespace Expr

theorem encode_eq (e : Expr) :
    e.encode = .record
      [("kind", e.form.encode encode),
       ("span", .optional Span.encode e.span),
       ("mask", e.mask.encode),
       ("access", e.access.encode),
       ("constant", .optional Constant.encode e.constant),
       ("result_type", .optional HostType.encode e.hostType)] := by
  rw [encode, fold_eq, encodeLayer, Form.encode_map]

theorem rejects_within (depth : Nat) : (decodeWithin depth).RejectsNull := by
  intro level
  cases depth with
  | zero => rfl
  | succ depth => exact record_rejects level

theorem keeps_within (depth : Nat) {e : Expr} (free : (Node.expr e).DoubleFree) (level : Nat) :
    (decodeWithin depth).Keeps encode level e := by
  -- on the depth, by which the reader recurs: what a layer holds is read with one level less
  induction depth generalizing e level with
  | zero => exact fun _ read => nomatch read
  | succ depth ih =>
    obtain ⟨own, children⟩ := Node.doubleFree_iff.1 free
    have inside : ∀ p ∈ e.form.parts, p.All ((decodeWithin depth).KeepsAlways encode) := by
      intro p member
      have free := children (.ofPart p) (List.mem_map_of_mem member)
      cases p with
      | expr value => exact ih free
      | type t =>
        intro value name
        apply ih
        apply (Node.doubleFree_iff.1 free).2
        simp [Node.children, TypeReference.parts, name, Node.ofPart]
    have noDouble : ∀ d, e.form ≠ .literal (.double d) := by
      intro d same
      exact own (.double d) (by simp [Node.constants, same]) d rfl
    have known : ∀ c ∈ e.constant, ∀ d, c ≠ .double d := by
      intro c present
      exact own c (List.mem_append_right _ (Option.mem_toList.2 present))
    refine .record e.encode_eq rfl (by decide) ?_
    intro inner fields _ read
    simp only [bind_eq_some, return_eq_some] at read ⊢
    rcases read with ⟨form, h1, span, h2, mask, h3, access, h4, constant, h5, hostType, h6, rfl⟩
    -- the layer is an object, so that a record may be opened beside it
    obtain ⟨j, -, opens⟩ := Option.bind_eq_some_iff.1 h1
    obtain ⟨deeper, -, -, rfl, -⟩ := carrying_eq_some opens
    exact ⟨_, (Form.keeps (rejects_within depth) noDouble inside).required h1 rfl,
      _, Keeps.optionalField record_rejects (fun s _ => s.keeps) h2 rfl,
      _, mask.keeps.withDefault (Mask.decode_encode _) h3 rfl,
      _, access.keeps.withDefault rfl h4 rfl,
      _, Keeps.optionalField choice_rejects (fun c present => Constant.keeps (known c present)) h5
        rfl,
      _, Keeps.optionalField choice_rejects (fun t _ => t.keeps) h6 rfl, rfl⟩

theorem keeps {e : Expr} (free : (Node.expr e).DoubleFree) : decode.Keeps encode level e :=
  keeps_within level free level

theorem rejects : decode.RejectsNull := fun level => rejects_within level level

theorem keeps_optionalField {fields members : Json.Fields} {key : String} {o : Option Expr}
    (free : ∀ e ∈ o, (Node.expr e).DoubleFree) (read : fields.optional key decode level = some o)
    (found : members.lookup key = some (.optional encode o)) :
    members.optional key decode level = some o := by
  apply Keeps.optionalField rejects
  · intro e present
    exact keeps (free e present)
  · exact read
  · exact found

end Expr

end FlowLint
