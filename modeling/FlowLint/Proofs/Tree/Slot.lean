import FlowLint.Tree.Basic
import Mathlib.Data.List.Basic

/-!
Where the parts of a tree stand. The fields of each layer are numbered as they are declared, so that
every part has a slot of its own, and the slots are in order from left to right.
-/

namespace FlowLint

/-- Where a part stands in the layer around it: in which field, in which element of a field that is
a list, and at which place in that element. -/
structure Slot where
  field : Nat
  index : Nat
  place : Nat
  deriving DecidableEq, Repr

def Slot.Before (s t : Slot) : Prop :=
  s.field < t.field ∨ s.field = t.field ∧
    (s.index < t.index ∨ s.index = t.index ∧ s.place < t.place)

section

variable {α : Type}

inductive Callee.Holds : Callee α → Nat → Part α → Prop where
  | functionName {value : α} : Holds (.function (.indirect value)) 0 (.expr value)
  | receiver {receiver : α} {name : Name α} : Holds (.method receiver name) 0 (.expr receiver)
  | methodName {receiver value : α} : Holds (.method receiver (.indirect value)) 1 (.expr value)
  | staticType {type : TypeReference α} {name : Name α} : Holds (.static type name) 0 (.type type)
  | staticName {type : TypeReference α} {value : α} :
      Holds (.static type (.indirect value)) 1 (.expr value)
  | newType {type : TypeReference α} : Holds (.new type) 0 (.type type)

inductive Form.Holds : Form α → Slot → Part α → Prop where
  | variableName {v : Variable α} {value : α} :
      v.name = .indirect value → Holds (.var v) ⟨0, 0, 0⟩ (.expr value)
  | assignTarget {target value : α} : Holds (.assign target value) ⟨0, 0, 0⟩ (.expr target)
  | assignValue {target value : α} : Holds (.assign target value) ⟨1, 0, 0⟩ (.expr value)
  | compoundTarget {op : BinaryOp} {target value : α} :
      Holds (.compoundAssign op target value) ⟨1, 0, 0⟩ (.expr target)
  | compoundValue {op : BinaryOp} {target value : α} :
      Holds (.compoundAssign op target value) ⟨2, 0, 0⟩ (.expr value)
  | itemKey {items : List (ArrayItem α)} {i : Nat} {key value : α} :
      items[i]? = some ⟨some key, value⟩ → Holds (.array items) ⟨0, i, 0⟩ (.expr key)
  | itemValue {items : List (ArrayItem α)} {i : Nat} {item : ArrayItem α} :
      items[i]? = some item → Holds (.array items) ⟨0, i, 1⟩ (.expr item.value)
  | container {container : α} {index : Option α} :
      Holds (.arrayItem container index) ⟨0, 0, 0⟩ (.expr container)
  | index {container index : α} : Holds (.arrayItem container (some index)) ⟨1, 0, 0⟩ (.expr index)
  | left {op : BinaryOp} {left right : α} : Holds (.binary op left right) ⟨1, 0, 0⟩ (.expr left)
  | right {op : BinaryOp} {left right : α} : Holds (.binary op left right) ⟨2, 0, 0⟩ (.expr right)
  | operand {op : UnaryOp} {operand : α} : Holds (.unary op operand) ⟨1, 0, 0⟩ (.expr operand)
  | converted {target : ValueType} {operand : α} {implicit : Bool} :
      Holds (.conversion target operand implicit) ⟨1, 0, 0⟩ (.expr operand)
  | condition {condition ifFalse : α} {ifTrue : Option α} :
      Holds (.conditional condition ifTrue ifFalse) ⟨0, 0, 0⟩ (.expr condition)
  | ifTrue {condition ifTrue ifFalse : α} :
      Holds (.conditional condition (some ifTrue) ifFalse) ⟨1, 0, 0⟩ (.expr ifTrue)
  | ifFalse {condition ifFalse : α} {ifTrue : Option α} :
      Holds (.conditional condition ifTrue ifFalse) ⟨2, 0, 0⟩ (.expr ifFalse)
  | concatenated {values : List α} {i : Nat} {value : α} :
      values[i]? = some value → Holds (.concat values) ⟨0, i, 0⟩ (.expr value)
  | callee {call : Call α} {k : Nat} {part : Part α} :
      call.callee.Holds k part → Holds (.call call) ⟨0, 0, k⟩ part
  | argument {call : Call α} {i : Nat} {argument : Argument α} :
      call.arguments[i]? = some argument → Holds (.call call) ⟨2, i, 0⟩ (.expr argument.value)
  | file {file : α} : Holds (.load file) ⟨0, 0, 0⟩ (.expr file)
  | code {code : α} : Holds (.eval code) ⟨0, 0, 0⟩ (.expr code)
  | asserted {arguments : List (Argument α)} {i : Nat} {argument : Argument α} :
      arguments[i]? = some argument → Holds (.assert arguments) ⟨0, i, 0⟩ (.expr argument.value)
  | tested {operand : α} {type : TypeReference α} :
      Holds (.instanceOf operand type) ⟨0, 0, 0⟩ (.expr operand)
  | testedType {operand : α} {type : TypeReference α} :
      Holds (.instanceOf operand type) ⟨1, 0, 0⟩ (.type type)
  | fieldReceiver {field : FieldAccess α} {receiver : α} :
      field.receiver = some receiver → Holds (.field field) ⟨0, 0, 0⟩ (.expr receiver)
  | fieldType {field : FieldAccess α} {type : TypeReference α} :
      field.containingType = some type → Holds (.field field) ⟨1, 0, 0⟩ (.type type)
  | isset {values : List α} {i : Nat} {value : α} :
      values[i]? = some value → Holds (.isset values) ⟨0, i, 0⟩ (.expr value)
  | status {status : α} : Holds (.exit (some status)) ⟨0, 0, 0⟩ (.expr status)

end

/-- A field: its elements, each with its parts and their numbers. -/
abbrev Field (γ : Type) : Type := List (List (Nat × γ))

abbrev Fields (γ : Type) : Type := List (Nat × Field γ)

namespace Field

variable {γ : Type}

def flat (field : Field γ) : List γ := field.flatMap fun element => element.map Prod.snd

def Has (field : Field γ) (index place : Nat) (x : γ) : Prop :=
  ∃ element, field[index]? = some element ∧ (place, x) ∈ element

def Numbered (field : Field γ) : Prop := ∀ element ∈ field, element.Pairwise fun a b => a.1 < b.1

/-- A field that is no list. -/
def single (element : List (Nat × γ)) : Field γ := [element]

def one (x : γ) : Field γ := single [(0, x)]

def maybe (o : Option γ) : Field γ := single (o.toList.map (0, ·))

def many (l : List γ) : Field γ := l.map fun x => [(0, x)]

variable {x y : γ} {o : Option γ} {l : List γ} {element : List (Nat × γ)} {i j : Nat}

@[simp] theorem flat_single : flat (single element) = element.map Prod.snd := by
  simp [flat, single]

@[simp] theorem flat_one : flat (one x) = [x] := rfl

@[simp] theorem flat_maybe : flat (maybe o) = o.toList := by
  cases o <;> rfl

@[simp] theorem flat_map {β : Type} {f : β → List (Nat × γ)} {elements : List β} :
    flat (elements.map f) = elements.flatMap fun x => (f x).map Prod.snd := by
  simp [flat, List.flatMap_map]

@[simp] theorem flat_many : flat (many l) = l := by
  simp [many]

@[simp] theorem has_single : Has (single element) i j y ↔ i = 0 ∧ (j, y) ∈ element := by
  simp [Has, single, List.getElem?_singleton]

@[simp] theorem has_one : Has (one x) i j y ↔ i = 0 ∧ j = 0 ∧ y = x := by
  simp [one]

@[simp] theorem has_maybe : Has (maybe o) i j y ↔ i = 0 ∧ j = 0 ∧ o = some y := by
  simp [maybe, and_comm, eq_comm]

@[simp] theorem has_map {β : Type} {f : β → List (Nat × γ)} {elements : List β} :
    Has (elements.map f) i j y ↔ ∃ x, elements[i]? = some x ∧ (j, y) ∈ f x := by
  simp [Has, List.getElem?_map]

@[simp] theorem has_many : Has (many l) i j y ↔ j = 0 ∧ l[i]? = some y := by
  simp [many, and_comm]

@[simp] theorem numbered_single :
    Numbered (single element) ↔ element.Pairwise fun a b => a.1 < b.1 := List.forall_mem_singleton

@[simp] theorem numbered_one : Numbered (one x) := by
  simp [one]

@[simp] theorem numbered_maybe : Numbered (maybe o) := by
  cases o <;> simp [maybe]

@[simp] theorem numbered_map {β : Type} {f : β → List (Nat × γ)} {elements : List β} :
    Numbered (elements.map f) ↔ ∀ x ∈ elements, (f x).Pairwise fun a b => a.1 < b.1 := by
  simp [Numbered]

@[simp] theorem numbered_many : Numbered (many l) := by
  simp [many]

end Field

namespace Fields

variable {γ : Type}

/-- The parts of the fields from left to right, each in its slot. -/
def placed (fields : Fields γ) : List (Slot × γ) :=
  fields.flatMap fun field => field.2.zipIdx.flatMap fun element =>
    element.1.map fun part => (⟨field.1, element.2, part.1⟩, part.2)

def Has (fields : Fields γ) (slot : Slot) (x : γ) : Prop :=
  ∃ field, (slot.field, field) ∈ fields ∧ Field.Has field slot.index slot.place x

@[simp] theorem not_has_nil {slot : Slot} {x : γ} : ¬ Has [] slot x := by
  simp [Has]

@[simp] theorem has_cons {number : Nat} {field : Field γ} {rest : Fields γ} {slot : Slot} {x : γ} :
    Has ((number, field) :: rest) slot x ↔
      slot.field = number ∧ Field.Has field slot.index slot.place x ∨ Has rest slot x := by
  simp [Has, or_and_right, exists_or, and_assoc]

/-- The numbers ascend. -/
structure Numbered (fields : Fields γ) : Prop where
  outer : fields.Pairwise fun a b => a.1 < b.1
  inner : ∀ field ∈ fields, Field.Numbered field.2

variable {fields : Fields γ}

theorem mem_placed_iff {slot : Slot} {x : γ} :
    (slot, x) ∈ placed fields ↔ Has fields slot x := by
  simp only [placed, List.mem_flatMap, List.mem_map, Prod.exists, Prod.mk.injEq]
  constructor
  · rintro ⟨number, field, listed, element, i, found, j, y, member, rfl, rfl⟩
    exact ⟨field, listed, element, List.mem_zipIdx_iff_getElem?.1 found, member⟩
  · rintro ⟨field, listed, element, found, member⟩
    exact ⟨slot.field, field, listed, element, slot.index, List.mem_zipIdx_iff_getElem?.2 found,
      slot.place, x, member, rfl, rfl⟩

theorem zipIdx_pairwise {β : Type} (l : List β) : l.zipIdx.Pairwise fun a b => a.2 < b.2 := by
  rw [← List.pairwise_map, List.zipIdx_map_snd]
  exact List.pairwise_lt_range'

theorem placed_pairwise (numbered : Numbered fields) :
    (placed fields).Pairwise fun a b => a.1.Before b.1 := by
  rw [placed, List.pairwise_flatMap]
  constructor
  · intro field listed
    rw [List.pairwise_flatMap]
    constructor
    · intro element among
      rw [List.pairwise_map]
      have sorted := numbered.inner field listed element.1 (List.fst_mem_of_mem_zipIdx among)
      exact sorted.imp fun less => .inr ⟨rfl, .inr ⟨rfl, less⟩⟩
    · refine (zipIdx_pairwise _).imp fun less => ?_
      simp only [List.mem_map]
      rintro - ⟨-, -, rfl⟩ - ⟨-, -, rfl⟩
      exact .inr ⟨rfl, .inl less⟩
  · refine numbered.outer.imp fun less => ?_
    simp only [List.mem_flatMap, List.mem_map]
    rintro - ⟨-, -, -, -, rfl⟩ - ⟨-, -, -, -, rfl⟩
    exact .inl less

theorem map_snd_placed :
    (placed fields).map Prod.snd = fields.flatMap fun field => Field.flat field.2 := by
  have flat (field : Field γ) :
      (field.zipIdx.flatMap fun element => element.1.map Prod.snd) = Field.flat field := by
    rw [← List.flatMap_map Prod.fst, List.zipIdx_map_fst, Field.flat]
  simp only [placed, List.map_flatMap, List.map_map]
  exact List.flatMap_congr fun field _ => flat field.2

end Fields

section

open FlowLint.Field

variable {α : Type}

def Name.numbered (number : Nat) : Name α → List (Nat × Part α)
  | direct _ => []
  | indirect value => [(number, .expr value)]

def Callee.numbered : Callee α → List (Nat × Part α)
  | function name => name.numbered 0
  | method receiver name => (0, .expr receiver) :: name.numbered 1
  | static type name => (0, .type type) :: name.numbered 1
  | new type => [(0, .type type)]

def ArrayItem.numbered (item : ArrayItem α) : List (Nat × Part α) :=
  item.key.toList.map (0, .expr ·) ++ [(1, .expr item.value)]

theorem Name.numbered_pairwise (n : Name α) (number : Nat) :
    (n.numbered number).Pairwise fun a b => a.1 < b.1 := by
  cases n <;> simp [numbered]

theorem Name.map_snd_numbered (n : Name α) (number : Nat) :
    (n.numbered number).map Prod.snd = n.parts := by
  cases n <;> rfl

theorem Name.mem_numbered_iff {n : Name α} {number place : Nat} {part : Part α} :
    (place, part) ∈ n.numbered number ↔
      place = number ∧ ∃ value, n = .indirect value ∧ part = .expr value := by
  cases n <;> simp [numbered]

theorem Callee.numbered_pairwise (c : Callee α) :
    c.numbered.Pairwise fun a b => a.1 < b.1 := by
  have behind (n : Name α) : ∀ entry ∈ n.numbered 1, 0 < entry.1 := by
    cases n <;> simp [Name.numbered]
  cases c with
  | function name => exact name.numbered_pairwise 0
  | method receiver name => exact List.pairwise_cons.2 ⟨behind name, name.numbered_pairwise 1⟩
  | static type name => exact List.pairwise_cons.2 ⟨behind name, name.numbered_pairwise 1⟩
  | new type => exact List.pairwise_singleton _ _

theorem Callee.map_snd_numbered (c : Callee α) : c.numbered.map Prod.snd = c.parts := by
  cases c <;> simp [numbered, parts, Name.map_snd_numbered]

theorem Callee.mem_numbered_iff {c : Callee α} {place : Nat} {part : Part α} :
    (place, part) ∈ c.numbered ↔ c.Holds place part := by
  constructor
  · intro member
    cases c <;> simp [numbered, Name.mem_numbered_iff] at member
    · obtain ⟨rfl, value, rfl, rfl⟩ := member
      exact .functionName
    · rcases member with ⟨rfl, rfl⟩ | ⟨rfl, value, rfl, rfl⟩
      · exact .receiver
      · exact .methodName
    · rcases member with ⟨rfl, rfl⟩ | ⟨rfl, value, rfl, rfl⟩
      · exact .staticType
      · exact .staticName
    · obtain ⟨rfl, rfl⟩ := member
      exact .newType
  · rintro (_ | _ | _ | _ | _ | _) <;> simp [numbered, Name.numbered]

theorem ArrayItem.mem_numbered_iff {item : ArrayItem α} {place : Nat} {part : Part α} :
    (place, part) ∈ item.numbered ↔
      (place = 0 ∧ ∃ key, item.key = some key ∧ part = .expr key) ∨
        place = 1 ∧ part = .expr item.value := by
  cases key : item.key <;> simp [numbered, key]

namespace Form

def fields : Form α → Fields (Part α)
  | literal _ => []
  | var v => [(0, single (v.name.numbered 0))]
  | assign target value => [(0, one (.expr target)), (1, one (.expr value))]
  | compoundAssign _ target value => [(1, one (.expr target)), (2, one (.expr value))]
  | array items => [(0, items.map ArrayItem.numbered)]
  | arrayItem container index => [(0, one (.expr container)), (1, maybe (index.map .expr))]
  | binary _ left right => [(1, one (.expr left)), (2, one (.expr right))]
  | unary _ operand => [(1, one (.expr operand))]
  | conversion _ operand _ => [(1, one (.expr operand))]
  | conditional condition ifTrue ifFalse =>
    [(0, one (.expr condition)), (1, maybe (ifTrue.map .expr)), (2, one (.expr ifFalse))]
  | concat values => [(0, many (values.map .expr))]
  | call c => [(0, single c.callee.numbered), (2, many (c.arguments.map (.expr ·.value)))]
  | load file => [(0, one (.expr file))]
  | eval code => [(0, one (.expr code))]
  | assert arguments => [(0, many (arguments.map (.expr ·.value)))]
  | instanceOf operand type => [(0, one (.expr operand)), (1, one (.type type))]
  | field f => [(0, maybe (f.receiver.map .expr)), (1, maybe (f.containingType.map .type))]
  | isset values => [(0, many (values.map .expr))]
  | exit status => [(0, maybe (status.map .expr))]

theorem fields_numbered (f : Form α) : f.fields.Numbered := by
  constructor
  · cases f <;> simp [fields]
  · cases f with
    | array items =>
      have item (i : ArrayItem α) : i.numbered.Pairwise fun a b => a.1 < b.1 := by
        cases key : i.key <;> simp [ArrayItem.numbered, key]
      simp [fields, item]
    | _ => simp [fields, Name.numbered_pairwise, Callee.numbered_pairwise]

theorem map_snd_placed (f : Form α) : f.fields.placed.map Prod.snd = f.parts := by
  rw [Fields.map_snd_placed]
  cases f with
  | array items => simp [fields, parts, ArrayItem.numbered, Function.comp_def]
  | _ =>
    simp [fields, parts, Option.toList_map, Name.map_snd_numbered, Callee.map_snd_numbered]

theorem has_fields_iff {f : Form α} {slot : Slot} {part : Part α} :
    f.fields.Has slot part ↔ f.Holds slot part := by
  constructor
  · obtain ⟨number, index, place⟩ := slot
    intro held
    cases f <;>
      simp only [fields, Name.mem_numbered_iff, Callee.mem_numbered_iff, ArrayItem.mem_numbered_iff,
        Fields.not_has_nil, Fields.has_cons, has_single, has_one, has_maybe, has_map, has_many,
        Option.map_eq_some_iff, List.getElem?_map, or_false] at held
    case var =>
      obtain ⟨rfl, rfl, rfl, value, name, rfl⟩ := held
      exact .variableName name
    case assign =>
      rcases held with ⟨rfl, rfl, rfl, rfl⟩ | ⟨rfl, rfl, rfl, rfl⟩
      · exact .assignTarget
      · exact .assignValue
    case compoundAssign =>
      rcases held with ⟨rfl, rfl, rfl, rfl⟩ | ⟨rfl, rfl, rfl, rfl⟩
      · exact .compoundTarget
      · exact .compoundValue
    case array =>
      obtain ⟨rfl, ⟨key?, value⟩, found, ⟨rfl, key, rfl, rfl⟩ | ⟨rfl, rfl⟩⟩ := held
      · exact .itemKey found
      · exact .itemValue found
    case arrayItem =>
      rcases held with ⟨rfl, rfl, rfl, rfl⟩ | ⟨rfl, rfl, rfl, index, rfl, rfl⟩
      · exact .container
      · exact .index
    case binary =>
      rcases held with ⟨rfl, rfl, rfl, rfl⟩ | ⟨rfl, rfl, rfl, rfl⟩
      · exact .left
      · exact .right
    case unary =>
      obtain ⟨rfl, rfl, rfl, rfl⟩ := held
      exact .operand
    case conversion =>
      obtain ⟨rfl, rfl, rfl, rfl⟩ := held
      exact .converted
    case conditional =>
      rcases held with ⟨rfl, rfl, rfl, rfl⟩ | ⟨rfl, rfl, rfl, value, rfl, rfl⟩ |
        ⟨rfl, rfl, rfl, rfl⟩
      · exact .condition
      · exact .ifTrue
      · exact .ifFalse
    case concat =>
      obtain ⟨rfl, rfl, value, found, rfl⟩ := held
      exact .concatenated found
    case call =>
      rcases held with ⟨rfl, rfl, holds⟩ | ⟨rfl, rfl, argument, found, rfl⟩
      · exact .callee holds
      · exact .argument found
    case load =>
      obtain ⟨rfl, rfl, rfl, rfl⟩ := held
      exact .file
    case eval =>
      obtain ⟨rfl, rfl, rfl, rfl⟩ := held
      exact .code
    case assert =>
      obtain ⟨rfl, rfl, argument, found, rfl⟩ := held
      exact .asserted found
    case instanceOf =>
      rcases held with ⟨rfl, rfl, rfl, rfl⟩ | ⟨rfl, rfl, rfl, rfl⟩
      · exact .tested
      · exact .testedType
    case field =>
      rcases held with ⟨rfl, rfl, rfl, value, found, rfl⟩ | ⟨rfl, rfl, rfl, type, found, rfl⟩
      · exact .fieldReceiver found
      · exact .fieldType found
    case isset =>
      obtain ⟨rfl, rfl, value, found, rfl⟩ := held
      exact .isset found
    case exit =>
      obtain ⟨rfl, rfl, rfl, value, rfl, rfl⟩ := held
      exact .status
  · intro holds
    cases holds <;>
      simp [fields, Name.mem_numbered_iff, Callee.mem_numbered_iff, ArrayItem.mem_numbered_iff, *]

end Form

end

end FlowLint
