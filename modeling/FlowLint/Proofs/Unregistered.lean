import FlowLint.Proofs.Document.Program
import FlowLint.Proofs.Program.Defect
import FlowLint.Proofs.Remark
import FlowLint.Proofs.Rule.Unpacking
import FlowLint.Proofs.Value.Registry

/-!
Masks whose slots have no types. A program is accepted whatever slots its masks select. As long as
one of them has a type, the questions about objects agree, and a value on which no method can be
called cannot be cloned either. If none has, all that the mask selects is an object, nothing that it
selects is one, and it selects a single type that cannot be told.
-/

namespace FlowLint

/-- Some slot that the mask selects has a type. -/
def Registry.Knows (r : Registry) (m : Mask) : Prop := ∃ i, m.has i = true ∧ i < r.types.length

namespace Registry

variable {r : Registry} {m : Mask}

theorem exists_mem_concrete_iff (known : m.isAny = false) :
    (∃ t, t ∈ r.concrete m) ↔ r.Knows m := by
  simp only [mem_concrete_iff_getElem? known, Knows]
  constructor
  · rintro ⟨t, i, selected, here⟩
    exact ⟨i, selected, (List.getElem?_eq_some_iff.1 here).1⟩
  · rintro ⟨i, selected, within⟩
    exact ⟨_, i, selected, List.getElem?_eq_getElem within⟩

theorem onlyObjects_iff (decidable : m.isDecidable = true) (some : m.isVoid = false) :
    r.onlyObjects m = true ↔ ∀ t ∈ r.concrete m, t.isObject = true := by
  simp [onlyObjects, decidable, some]

theorem onlyObjects_of_isVoid (void : m.isVoid = true) : r.onlyObjects m = false := by
  simp [onlyObjects, void]

theorem hasObject_iff : r.hasObject m = true ↔ ∃ t ∈ r.concrete m, t.isObject = true := by
  rw [hasObject, List.any_eq_true]

/-- That all are objects implies that one is, unless there is none. -/
theorem hasObject_of_onlyObjects_iff (decidable : m.isDecidable = true) (some : m.isVoid = false) :
    (r.onlyObjects m = true → r.hasObject m = true) ↔ r.Knows m := by
  rw [onlyObjects_iff decidable some, hasObject_iff,
    ← exists_mem_concrete_iff (Mask.isDecidable_iff.1 decidable).1]
  constructor
  · intro agree
    by_contra none
    push Not at none
    obtain ⟨t, selected, -⟩ := agree fun t selected => absurd selected (none t)
    exact none t selected
  · rintro ⟨t, selected⟩ all
    exact ⟨t, selected, all t selected⟩

theorem isSome_single?_iff (single : m.isSingle = true) :
    (r.single? m).isSome = true ↔ r.Knows m := by
  obtain ⟨-, one⟩ := Bool.and_eq_true_iff.1 single
  obtain ⟨i, slots⟩ := List.length_eq_one_iff.1 (beq_iff_eq.1 one)
  have selected (j : Nat) : m.has j = true ↔ j = i := by
    rw [← Mask.mem_slots, slots, List.mem_singleton]
  rw [single?, if_pos single, slots, List.head?_cons, Option.bind_some, Knows]
  simp [selected]

end Registry

namespace Context

variable (c : Context) (regions : Regions) {value : Expr}

theorem own_clone_iff {copy : Expr} (form : copy.form = .unary .clone value) :
    (∃ r ∈ c.own regions copy, r.finding.code = "W0217") ↔
      value.mask.isDecidable = true ∧ c.registry.onlyObjects value.mask = false := by
  simp [own_eq, enterExpr, leaveExpr, form, clone, mem_remarkIf, Finding.code]

theorem own_receiver_iff {e : Expr} {call : Call Expr} {name : Name Expr}
    (form : e.form = .call call) (method : call.callee = .method value name) :
    (∃ r ∈ c.own regions e, r.finding.code = "W0219") ↔ ∃ type, c.nonObject? value = some type := by
  rw [own_call c regions form, callee, method]
  dsimp only
  rw [methodCall_eq]
  constructor
  · rintro ⟨r, member, code⟩
    simp only [List.mem_append] at member
    rcases member with ((judged | deprecated) | undefined) | counted
    · obtain ⟨type, found, -⟩ := List.mem_map.1 judged
      exact ⟨type, Option.mem_toList.1 found⟩
    · have other : r.finding.code ∈ ["W0213"] :=
        c.deprecation_within e call List.mem_cons_self r deprecated
      simp [code] at other
    · rw [(mem_remarkIf.1 undefined).2] at code
      simp [Finding.code] at code
    · have other := c.argumentCount_within e call (List.Subset.refl _) r counted
      simp [code] at other
  · rintro ⟨type, found⟩
    have judged : ⟨value.span, .methodOfNonObject (methodName name) type⟩ ∈
        c.judge value (.receiver (methodName name)) :=
      List.mem_map.2 ⟨type, Option.mem_toList.2 found, rfl⟩
    exact ⟨_, List.mem_append_left _ (List.mem_append_left _ (List.mem_append_left _ judged)), rfl⟩

theorem nonObject?_iff (unstored : value.hostType = none) :
    (∃ type, c.nonObject? value = some type) ↔
      value.mask.isDecidable = true ∧ c.registry.hasObject value.mask = false := by
  simp [nonObject?, unstored]

/-- Of a value whose mask can be relied on, that it holds only objects implies that it may hold one
exactly if some slot of the mask has a type, and so does the type of a mask of one slot exist. If
the rule on receivers says that it can never hold an object, and how it is stored is not known, the
rule on clones says so too, but for masks that are not void and of whose slots none has a type. -/
theorem objects_exact (c : Context) (regions : Regions) (value : Expr) :
    (value.mask.isDecidable = true → value.mask.isVoid = false →
      ((c.registry.onlyObjects value.mask = true → c.registry.hasObject value.mask = true) ↔
        c.registry.Knows value.mask)) ∧
    (value.mask.isSingle = true →
      ((c.registry.single? value.mask).isSome = true ↔ c.registry.Knows value.mask)) ∧
    (value.hostType = none → ∀ e call name copy, e.form = .call call →
      call.callee = .method value name → copy.form = .unary .clone value →
        (∃ r ∈ c.own regions e, r.finding.code = "W0219") →
          ((∃ r ∈ c.own regions copy, r.finding.code = "W0217") ↔
            value.mask.isVoid = true ∨ c.registry.Knows value.mask)) := by
  refine ⟨Registry.hasObject_of_onlyObjects_iff, Registry.isSome_single?_iff, ?_⟩
  intro unstored e call name copy form method copies objected
  rw [c.own_receiver_iff regions form method, c.nonObject?_iff unstored] at objected
  obtain ⟨decidable, never⟩ := objected
  rw [c.own_clone_iff regions copies, and_iff_right decidable]
  cases void : value.mask.isVoid with
  | true => simp [Registry.onlyObjects_of_isVoid void]
  | false =>
    rw [← Registry.hasObject_of_onlyObjects_iff decidable void, never]
    simp

end Context

/-- Its mask selects a slot that has no type if none is registered. -/
def stray : Expr :=
  ⟨.var ⟨.direct "x", .ordinary, false⟩, none, .ofSlot 0, ⟨true, false, false, false⟩, none, none⟩

def strayMethod : Call Expr := ⟨.method stray (.direct "run"), .unresolved, [], none⟩

def strayCall : Expr :=
  ⟨.call strayMethod, none, .any, ⟨true, false, false, false⟩, none, none⟩

def strayCopy : Expr :=
  ⟨.unary .clone stray, none, .any, ⟨true, false, false, false⟩, none, none⟩

def strayBlock : Block :=
  ⟨0, .plain, [⟨.expression strayCall, none⟩, ⟨.expression strayCopy, none⟩], none⟩

def strayGraph : Graph := ⟨0, 0, [strayBlock], [], []⟩

def strayRoutine : Routine := ⟨0, some strayGraph, .empty⟩

def strayProgram : Program := ⟨⟨[], [Context.script.symbol]⟩, [strayRoutine]⟩

def strayDocument : Json :=
  let value := Json.record
    [("kind", .case "variable" (.record [("name", .case "direct" (.text "x"))])), ("mask", .nat 1)]
  let callee := Json.case "instance"
    (.record [("instance", value), ("name", .case "direct" (.text "run"))])
  let call := Json.case "call" (.record [("kind", callee), ("target", .text "unresolved")])
  let copy := Json.case "unary" (.record [("op", .text "clone"), ("operand", value)])
  let statement (form : Json) : Json :=
    .record [("kind", .case "expression" (.record [("kind", form)]))]
  let block := Json.record
    [("ordinal", .nat 0), ("statements", .array [statement call, statement copy])]
  let graph := Json.record [("start", .nat 0), ("exit", .nat 0), ("blocks", .array [block])]
  .record
    [("symbols", .record
       [("routines", .array [.record [("name", .text "main"), ("kind", .text "global_code")]])]),
     ("routines", .array [.record [("symbol", .nat 0), ("cfg", graph)]])]

/-- Where the slot has a type, both rules object to the value. -/
theorem stray_registered :
    let c : Context := { Context.script with registry := .ofList [.integer] }
    (∃ r ∈ c.own .empty strayCall, r.finding.code = "W0219") ∧
      (∃ r ∈ c.own .empty strayCopy, r.finding.code = "W0217") ∧
      (c.registry.single? stray.mask).isSome = true := by
  intro c
  obtain ⟨-, single, rules⟩ := Context.objects_exact c .empty stray
  have knows : c.registry.Knows stray.mask := ⟨0, by decide, by decide⟩
  have objected : ∃ r ∈ c.own .empty strayCall, r.finding.code = "W0219" := by
    rw [Context.own_receiver_iff _ _ rfl rfl, Context.nonObject?_iff _ rfl]
    decide
  exact ⟨objected, (rules rfl _ _ _ _ rfl rfl rfl objected).2 (.inr knows),
    (single (by decide)).2 knows⟩

theorem decode_strayDocument : Program.decode.run strayDocument = some strayProgram := rfl

theorem strayProgram_valid : strayProgram.Valid where
  declared := by simp [strayProgram, strayRoutine, SymbolTable.routine?]
  distinct := List.nodup_singleton _
  sound := by
    intro r member g body
    obtain rfl := List.mem_singleton.1 member
    obtain rfl := Option.some.inj body
    constructor
    · unfold Ascending
      decide
    · decide

theorem stray_entered :
    ∀ e ∈ [stray, strayCall, strayCopy], .expr e ∈ (Node.block strayBlock).entered := by
  have inside {n m : Node} (within : n ∈ (Node.block strayBlock).entered) (child : m ∈ n.children) :
      m ∈ (Node.block strayBlock).entered := Node.child_mem_entered within child
  have call : .expr strayCall ∈ (Node.block strayBlock).entered :=
    inside (inside (Node.self_mem_entered _) List.mem_cons_self) List.mem_cons_self
  have copy : .expr strayCopy ∈ (Node.block strayBlock).entered :=
    inside (inside (Node.self_mem_entered _) (List.mem_cons_of_mem _ List.mem_cons_self))
      List.mem_cons_self
  simp only [List.forall_mem_cons]
  exact ⟨inside copy List.mem_cons_self, call, copy, by simp⟩

/-- In an accepted program, a value may hold only objects and yet none, its mask may be that of a
single type and yet have none, and it may be cloned although no method can be called on it. -/
theorem objects_disagree :
    Program.ofText strayDocument.render = .ok strayProgram ∧
      strayRoutine ∈ strayProgram.routines ∧ strayRoutine.graph = some strayGraph ∧
      strayBlock ∈ strayGraph.blocks ∧
      (∀ e ∈ [stray, strayCall, strayCopy], .expr e ∈ (Node.block strayBlock).entered) ∧
      stray.mask.isDecidable = true ∧ stray.mask.isVoid = false ∧ stray.hostType = none ∧
      strayRoutine.registry.onlyObjects stray.mask = true ∧
      strayRoutine.registry.hasObject stray.mask = false ∧
      stray.mask.isSingle = true ∧ strayRoutine.registry.single? stray.mask = none ∧
      let c := strayRoutine.context strayProgram.symbols Context.script.symbol
      (∃ r ∈ c.own .empty strayCall, r.finding.code = "W0219") ∧
        ¬ ∃ r ∈ c.own .empty strayCopy, r.finding.code = "W0217" := by
  have accepted : Program.ofText strayDocument.render = .ok strayProgram :=
    Program.ofText_eq_ok.2 ⟨strayDocument, Json.parse?_render _, decode_strayDocument,
      Program.defect?_eq_none_iff.2 strayProgram_valid⟩
  have decidable : stray.mask.isDecidable = true := by decide
  have only : strayRoutine.registry.onlyObjects stray.mask = true := by decide
  have never : strayRoutine.registry.hasObject stray.mask = false := by decide
  refine ⟨accepted, List.mem_cons_self, rfl, List.mem_cons_self, stray_entered, decidable,
    by decide, rfl, only, never, by decide, by decide, ?_, ?_⟩
  · rw [Context.own_receiver_iff _ _ rfl rfl, Context.nonObject?_iff _ rfl]
    exact ⟨decidable, never⟩
  · rw [Context.own_clone_iff _ _ rfl]
    rintro ⟨-, objected⟩
    exact absurd (only.symm.trans objected) (by decide)

end FlowLint
