import FlowLint.Graph.Visit
import FlowLint.Proofs.Tree.Slot

/-!
What statements, edges and blocks hold. Every child of a node has a slot of its own. A block holds
its catch header, its statements and its edge, in this order; other nodes hold what is in their
fields.
-/

namespace FlowLint

inductive StatementForm.Holds : StatementForm → Slot → Expr → Prop where
  | expression {value : Expr} : Holds (.expression value) ⟨0, 0, 0⟩ value
  | returned {value : Expr} : Holds (.return (some value)) ⟨0, 0, 0⟩ value
  | yieldKey {key : Expr} {value : Option Expr} : Holds (.yield (some key) value) ⟨0, 0, 0⟩ key
  | yieldValue {key : Option Expr} {value : Expr} : Holds (.yield key (some value)) ⟨1, 0, 0⟩ value
  | echo {values : List Expr} {i : Nat} {value : Expr} :
      values[i]? = some value → Holds (.echo values) ⟨0, i, 0⟩ value
  | unset {values : List Expr} {i : Nat} {value : Expr} :
      values[i]? = some value → Holds (.unset values) ⟨0, i, 0⟩ value
  | staticVariable {declared : List StaticVariable} {i : Nat} {v : StaticVariable} :
      declared[i]? = some v → Holds (.staticVariables declared) ⟨0, i, 0⟩ v.var
  | staticInitial {declared : List StaticVariable} {i : Nat} {var initial : Expr} :
      declared[i]? = some ⟨var, some initial⟩ → Holds (.staticVariables declared) ⟨0, i, 1⟩ initial
  | globals {values : List Expr} {i : Nat} {value : Expr} :
      values[i]? = some value → Holds (.globals values) ⟨0, i, 0⟩ value

inductive Edge.Holds : Edge → Slot → Expr → Prop where
  | condition {condition : Expr} {whenTrue whenFalse : Nat} :
      Holds (.branch condition whenTrue whenFalse) ⟨0, 0, 0⟩ condition
  | selected {value : Expr} {cases : List SwitchCase} : Holds (.select value cases) ⟨0, 0, 0⟩ value
  | label {value label : Expr} {cases : List SwitchCase} {i target : Nat} :
      cases[i]? = some ⟨some label, target⟩ → Holds (.select value cases) ⟨1, i, 0⟩ label
  | collection {collection : Expr} {target : Nat} :
      Holds (.foreach collection target) ⟨0, 0, 0⟩ collection
  | foreachKey {key value : Expr} {body next : Nat} :
      Holds (.foreachNext (some key) value body next) ⟨0, 0, 0⟩ key
  | foreachValue {key : Option Expr} {value : Expr} {body next : Nat} :
      Holds (.foreachNext key value body next) ⟨1, 0, 0⟩ value

inductive Node.Holds : Node → Slot → Node → Prop where
  | header {b : Block} {h : CatchHeader} :
      b.kind = .handler h → Holds (.block b) ⟨1, 0, 0⟩ (.header h)
  | statement {b : Block} {i : Nat} {s : Statement} :
      b.statements[i]? = some s → Holds (.block b) ⟨2, i, 0⟩ (.statement s)
  | edge {b : Block} {e : Edge} : b.edge = some e → Holds (.block b) ⟨3, 0, 0⟩ (.edge e)
  | caughtType {h : CatchHeader} {i : Nat} {t : TypeReference Expr} :
      h.types[i]? = some t → Holds (.header h) ⟨0, i, 0⟩ (.type t)
  | caught {h : CatchHeader} {e : Expr} : h.caught = some e → Holds (.header h) ⟨1, 0, 0⟩ (.expr e)
  | ofStatement {s : Statement} {slot : Slot} {e : Expr} :
      s.form.Holds slot e → Holds (.statement s) slot (.expr e)
  | ofEdge {edge : Edge} {slot : Slot} {e : Expr} :
      edge.Holds slot e → Holds (.edge edge) slot (.expr e)
  | ofExpr {e : Expr} {slot : Slot} {part : Part Expr} :
      e.form.Holds slot part → Holds (.expr e) slot (.ofPart part)
  | typeName {t : TypeReference Expr} {e : Expr} :
      t.name = .indirect e → Holds (.type t) ⟨0, 0, 0⟩ (.expr e)

open FlowLint.Field

def StaticVariable.numbered (v : StaticVariable) : List (Nat × Expr) :=
  (0, v.var) :: v.initial.toList.map (1, ·)

theorem StaticVariable.mem_numbered_iff {v : StaticVariable} {place : Nat} {e : Expr} :
    (place, e) ∈ v.numbered ↔ place = 0 ∧ e = v.var ∨ place = 1 ∧ v.initial = some e := by
  simp [numbered, eq_comm, and_comm]

namespace StatementForm

def fields : StatementForm → Fields Expr
  | expression value => [(0, one value)]
  | «return» value => [(0, maybe value)]
  | yield key value => [(0, maybe key), (1, maybe value)]
  | echo values => [(0, many values)]
  | unset values => [(0, many values)]
  | staticVariables declared => [(0, declared.map StaticVariable.numbered)]
  | globals values => [(0, many values)]
  | declare _ => []

theorem fields_numbered (s : StatementForm) : s.fields.Numbered := by
  constructor
  · cases s <;> simp [fields]
  · cases s with
    | staticVariables declared =>
      have element (v : StaticVariable) : v.numbered.Pairwise fun a b => a.1 < b.1 := by
        cases initial : v.initial <;> simp [StaticVariable.numbered, initial]
      simp [fields, element]
    | _ => simp [fields]

theorem has_fields_iff {s : StatementForm} {slot : Slot} {e : Expr} :
    s.fields.Has slot e ↔ s.Holds slot e := by
  constructor
  · obtain ⟨number, index, place⟩ := slot
    intro held
    cases s <;>
      simp only [fields, StaticVariable.mem_numbered_iff, Fields.not_has_nil, Fields.has_cons,
        has_one, has_maybe, has_map, has_many, or_false] at held
    case expression =>
      obtain ⟨rfl, rfl, rfl, rfl⟩ := held
      exact .expression
    case «return» =>
      obtain ⟨rfl, rfl, rfl, rfl⟩ := held
      exact .returned
    case yield =>
      rcases held with ⟨rfl, rfl, rfl, rfl⟩ | ⟨rfl, rfl, rfl, rfl⟩
      · exact .yieldKey
      · exact .yieldValue
    case echo =>
      obtain ⟨rfl, rfl, found⟩ := held
      exact .echo found
    case unset =>
      obtain ⟨rfl, rfl, found⟩ := held
      exact .unset found
    case staticVariables =>
      obtain ⟨rfl, ⟨var, initial⟩, found, ⟨rfl, rfl⟩ | ⟨rfl, rfl⟩⟩ := held
      · exact .staticVariable found
      · exact .staticInitial found
    case globals =>
      obtain ⟨rfl, rfl, found⟩ := held
      exact .globals found
  · intro holds
    cases holds <;> simp [fields, StaticVariable.mem_numbered_iff, *]

end StatementForm

theorem Statement.map_snd_placed (s : Statement) :
    s.form.fields.placed.map Prod.snd = s.parts := by
  rw [Fields.map_snd_placed, parts]
  cases s.form with
  | staticVariables declared =>
    simp [StatementForm.fields, StaticVariable.numbered, Function.comp_def]
  | _ => simp [StatementForm.fields]

def SwitchCase.numbered (c : SwitchCase) : List (Nat × Expr) := c.label.toList.map (0, ·)

theorem SwitchCase.mem_numbered_iff {c : SwitchCase} {place : Nat} {e : Expr} :
    (place, e) ∈ c.numbered ↔ place = 0 ∧ c.label = some e := by
  simp [numbered, eq_comm, and_comm]

namespace Edge

def fields : Edge → Fields Expr
  | jump _ => []
  | loopBack _ => []
  | branch condition _ _ => [(0, one condition)]
  | select value cases => [(0, one value), (1, cases.map SwitchCase.numbered)]
  | foreach collection _ => [(0, one collection)]
  | foreachNext key value _ _ => [(0, maybe key), (1, one value)]
  | guarded _ => []

theorem fields_numbered (e : Edge) : e.fields.Numbered := by
  constructor
  · cases e <;> simp [fields]
  · cases e with
    | select value labelled =>
      have element (c : SwitchCase) : c.numbered.Pairwise fun a b => a.1 < b.1 := by
        cases label : c.label <;> simp [SwitchCase.numbered, label]
      simp [fields, element]
    | _ => simp [fields]

theorem map_snd_placed (e : Edge) : e.fields.placed.map Prod.snd = e.parts := by
  rw [Fields.map_snd_placed]
  cases e with
  | select value labelled =>
    simp [fields, parts, SwitchCase.numbered, Function.comp_def]
  | _ => simp [fields, parts]

theorem has_fields_iff {edge : Edge} {slot : Slot} {e : Expr} :
    edge.fields.Has slot e ↔ edge.Holds slot e := by
  constructor
  · obtain ⟨number, index, place⟩ := slot
    intro held
    cases edge <;>
      simp only [fields, SwitchCase.mem_numbered_iff, Fields.not_has_nil, Fields.has_cons, has_one,
        has_maybe, has_map, or_false] at held
    case branch =>
      obtain ⟨rfl, rfl, rfl, rfl⟩ := held
      exact .condition
    case select =>
      rcases held with ⟨rfl, rfl, rfl, rfl⟩ | ⟨rfl, ⟨label, target⟩, found, rfl, rfl⟩
      · exact .selected
      · exact .label found
    case foreach =>
      obtain ⟨rfl, rfl, rfl, rfl⟩ := held
      exact .collection
    case foreachNext =>
      rcases held with ⟨rfl, rfl, rfl, rfl⟩ | ⟨rfl, rfl, rfl, rfl⟩
      · exact .foreachKey
      · exact .foreachValue
  · intro holds
    cases holds <;> simp [fields, SwitchCase.mem_numbered_iff, *]

end Edge

def BlockKind.header? : BlockKind → Option CatchHeader
  | handler h => some h
  | _ => none

theorem BlockKind.header?_eq_some_iff {k : BlockKind} {h : CatchHeader} :
    k.header? = some h ↔ k = .handler h := by
  cases k <;> simp [header?]

theorem TypeReference.getElem?_parts_eq_some_iff {t : TypeReference Expr} {i : Nat}
    {part : Part Expr} :
    t.parts[i]? = some part ↔ i = 0 ∧ ∃ value, t.name = .indirect value ∧ part = .expr value := by
  cases name : t.name <;>
    simp [parts, name, List.getElem?_singleton, eq_comm]

namespace Fields

variable {γ δ : Type}

def placedAs (view : γ → δ) (fields : Fields γ) : List (Slot × δ) :=
  (placed fields).map fun entry => (entry.1, view entry.2)

variable {view : γ → δ} {fields : Fields γ}

theorem placedAs_pairwise (numbered : Numbered fields) :
    (placedAs view fields).Pairwise fun a b => a.1.Before b.1 :=
  List.pairwise_map.2 (placed_pairwise numbered)

theorem map_snd_placedAs :
    (placedAs view fields).map Prod.snd = ((placed fields).map Prod.snd).map view := by
  simp [placedAs]

theorem mem_placedAs_iff {slot : Slot} {y : δ} :
    (slot, y) ∈ placedAs view fields ↔ ∃ x, Has fields slot x ∧ view x = y := by
  simp [placedAs, mem_placed_iff]

end Fields

namespace Node

open Fields

def placed : Node → List (Slot × Node)
  | block b =>
    Fields.placed [(1, maybe (b.kind.header?.map header)), (2, many (b.statements.map statement)),
      (3, maybe (b.edge.map edge))]
  | header h => Fields.placed [(0, many (h.types.map type)), (1, maybe (h.caught.map expr))]
  | statement s => s.form.fields.placedAs expr
  | edge e => e.fields.placedAs expr
  | expr e => e.form.fields.placedAs ofPart
  | type t => Fields.placedAs ofPart [(0, many t.parts)]

theorem placed_pairwise (n : Node) : n.placed.Pairwise fun a b => a.1.Before b.1 := by
  cases n with
  | block b => exact Fields.placed_pairwise ⟨by simp, by simp⟩
  | header h => exact Fields.placed_pairwise ⟨by simp, by simp⟩
  | statement s => exact placedAs_pairwise s.form.fields_numbered
  | edge e => exact placedAs_pairwise e.fields_numbered
  | expr e => exact placedAs_pairwise e.form.fields_numbered
  | type t => exact placedAs_pairwise ⟨by simp, by simp⟩

theorem map_snd_placed (n : Node) : n.placed.map Prod.snd = n.children := by
  cases n with
  | block b =>
    cases kind : b.kind <;>
      simp [placed, Fields.map_snd_placed, children, kind, BlockKind.header?, Option.toList_map]
  | header h => simp [placed, Fields.map_snd_placed, children, Option.toList_map]
  | statement s => rw [placed, map_snd_placedAs, Statement.map_snd_placed, children]
  | edge e => rw [placed, map_snd_placedAs, Edge.map_snd_placed, children]
  | expr e => rw [placed, map_snd_placedAs, Form.map_snd_placed, children]
  | type t => simp [placed, map_snd_placedAs, Fields.map_snd_placed, children]

theorem mem_placed_iff {n m : Node} {slot : Slot} : (slot, m) ∈ n.placed ↔ n.Holds slot m := by
  constructor
  · obtain ⟨number, index, place⟩ := slot
    intro held
    cases n with
    | block b =>
      simp only [placed, Fields.mem_placed_iff, not_has_nil, has_cons, has_maybe, has_many,
        Option.map_eq_some_iff, List.getElem?_map, or_false, BlockKind.header?_eq_some_iff] at held
      rcases held with ⟨rfl, rfl, rfl, h, kind, rfl⟩ | ⟨rfl, rfl, s, found, rfl⟩ |
        ⟨rfl, rfl, rfl, e, leaves, rfl⟩
      · exact .header kind
      · exact .statement found
      · exact .edge leaves
    | header h =>
      simp only [placed, Fields.mem_placed_iff, not_has_nil, has_cons, has_maybe, has_many,
        Option.map_eq_some_iff, List.getElem?_map, or_false] at held
      rcases held with ⟨rfl, rfl, t, found, rfl⟩ | ⟨rfl, rfl, rfl, e, caught, rfl⟩
      · exact .caughtType found
      · exact .caught caught
    | statement s =>
      obtain ⟨e, has, rfl⟩ := mem_placedAs_iff.1 held
      exact .ofStatement (StatementForm.has_fields_iff.1 has)
    | edge edge =>
      obtain ⟨e, has, rfl⟩ := mem_placedAs_iff.1 held
      exact .ofEdge (Edge.has_fields_iff.1 has)
    | expr e =>
      obtain ⟨part, has, rfl⟩ := mem_placedAs_iff.1 held
      exact .ofExpr (Form.has_fields_iff.1 has)
    | type t =>
      obtain ⟨part, has, rfl⟩ := mem_placedAs_iff.1 held
      simp only [not_has_nil, has_cons, has_many, TypeReference.getElem?_parts_eq_some_iff,
        or_false] at has
      obtain ⟨rfl, rfl, rfl, value, name, rfl⟩ := has
      exact .typeName name
  · intro holds
    cases holds with
    | header kind => simp [placed, Fields.mem_placed_iff, BlockKind.header?_eq_some_iff, kind]
    | statement found => simp [placed, Fields.mem_placed_iff, found]
    | edge leaves => simp [placed, Fields.mem_placed_iff, leaves]
    | caughtType found => simp [placed, Fields.mem_placed_iff, found]
    | caught caught => simp [placed, Fields.mem_placed_iff, caught]
    | ofStatement holds => exact mem_placedAs_iff.2 ⟨_, StatementForm.has_fields_iff.2 holds, rfl⟩
    | ofEdge holds => exact mem_placedAs_iff.2 ⟨_, Edge.has_fields_iff.2 holds, rfl⟩
    | ofExpr holds => exact mem_placedAs_iff.2 ⟨_, Form.has_fields_iff.2 holds, rfl⟩
    | typeName name =>
      refine mem_placedAs_iff.2 ⟨.expr _, ?_, rfl⟩
      simp [TypeReference.getElem?_parts_eq_some_iff, name]

end Node

end FlowLint
