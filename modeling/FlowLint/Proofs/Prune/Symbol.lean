import FlowLint.Symbol.Basic

/-!
Symbol tables without dangling identifiers. One that points past the end of its list is dropped;
all that the table answers stays the same, apart from the identifiers themselves.
-/

namespace FlowLint

theorem bind_getElem?_of_filter {α : Type} (l : List α) (id : Option Nat) :
    (id.filter (· < l.length)).bind (l[·]?) = id.bind (l[·]?) := by
  cases id with
  | none => rfl
  | some id =>
    rw [Option.filter_some]
    by_cases inside : id < l.length
    · rw [if_pos (decide_eq_true inside)]
    · rw [if_neg (mt of_decide_eq_true inside), Option.bind_none, Option.bind_some,
        List.getElem?_eq_none (Nat.not_lt.1 inside)]

namespace SymbolTable

variable (s : SymbolTable)

def knownType (id : Option TypeId) : Option TypeId := id.filter (· < s.types.length)

def knownRoutine (id : Option RoutineId) : Option RoutineId := id.filter (· < s.routines.length)

theorem knownType_some (id : TypeId) :
    s.knownType (some id) = if id < s.types.length then some id else none := by
  rw [knownType, Option.filter_some]
  simp only [decide_eq_true_eq]

theorem knownRoutine_some (id : RoutineId) :
    s.knownRoutine (some id) = if id < s.routines.length then some id else none := by
  rw [knownRoutine, Option.filter_some]
  simp only [decide_eq_true_eq]

theorem bind_type?_knownType (id : Option TypeId) :
    (s.knownType id).bind s.type? = id.bind s.type? := bind_getElem?_of_filter s.types id

theorem bind_routine?_knownRoutine (id : Option RoutineId) :
    (s.knownRoutine id).bind s.routine? = id.bind s.routine? :=
  bind_getElem?_of_filter s.routines id

end SymbolTable

def BaseType.pruned (s : SymbolTable) (b : BaseType) : BaseType :=
  { b with symbol := s.knownType b.symbol }

def TypeSymbol.pruned (s : SymbolTable) (t : TypeSymbol) : TypeSymbol :=
  { t with base := t.base.map (·.pruned s), initializer := s.knownRoutine t.initializer }

def RoutineSymbol.pruned (s : SymbolTable) (r : RoutineSymbol) : RoutineSymbol :=
  { r with containingType := s.knownType r.containingType }

theorem TypeSymbol.isSome_base_pruned (s : SymbolTable) (t : TypeSymbol) :
    (t.pruned s).base.isSome = t.base.isSome := Option.isSome_map

namespace SymbolTable

variable (s : SymbolTable)

def pruned : SymbolTable := ⟨s.types.map (·.pruned s), s.routines.map (·.pruned s)⟩

theorem length_types_pruned : s.pruned.types.length = s.types.length := List.length_map _

theorem length_routines_pruned : s.pruned.routines.length = s.routines.length := List.length_map _

theorem type?_pruned (id : TypeId) : s.pruned.type? id = (s.type? id).map (·.pruned s) :=
  List.getElem?_map

theorem routine?_pruned (id : RoutineId) :
    s.pruned.routine? id = (s.routine? id).map (·.pruned s) := List.getElem?_map

theorem bind_type?_pruned (id : Option TypeId) :
    id.bind s.pruned.type? = (id.bind s.type?).map (·.pruned s) := by
  rw [Option.map_bind]
  exact Option.bind_congr fun id _ => s.type?_pruned id

theorem bind_routine?_pruned (id : Option RoutineId) :
    id.bind s.pruned.routine? = (id.bind s.routine?).map (·.pruned s) := by
  rw [Option.map_bind]
  exact Option.bind_congr fun id _ => s.routine?_pruned id

theorem ownerOf_pruned (r : RoutineSymbol) :
    s.pruned.ownerOf (r.pruned s) = (s.ownerOf r).map (·.pruned s) := by
  calc
    _ = (s.knownType r.containingType).bind s.pruned.type? := rfl
    _ = ((s.knownType r.containingType).bind s.type?).map (·.pruned s) := s.bind_type?_pruned _
    _ = _ := by
      rw [s.bind_type?_knownType]
      rfl

theorem memberName_pruned (r : RoutineSymbol) :
    s.pruned.memberName (r.pruned s) = s.memberName r := by
  rw [memberName, s.ownerOf_pruned, memberName]
  cases s.ownerOf r <;> rfl

theorem baseOf_pruned (id : TypeId) :
    (((s.pruned.type? id).bind (·.base)).bind (·.symbol)).bind s.pruned.type? =
      ((((s.type? id).bind (·.base)).bind (·.symbol)).bind s.type?).map (·.pruned s) := by
  rw [s.bind_type?_pruned, s.type?_pruned]
  congr 1
  cases s.type? id with
  | none => rfl
  | some t =>
    obtain ⟨name, enclosing, kind, isAbstract, isStatic, special, base, initializer⟩ := t
    cases base with
    | none => rfl
    | some b => exact s.bind_type?_knownType b.symbol

theorem hasBaseConstructor_pruned (id : TypeId) :
    s.pruned.hasBaseConstructor id = s.hasBaseConstructor id := by
  rw [hasBaseConstructor, s.baseOf_pruned, hasBaseConstructor]
  cases (((s.type? id).bind (·.base)).bind (·.symbol)).bind s.type? with
  | none => rfl
  | some base =>
    have own : (base.pruned s).initializer.bind s.pruned.routine? =
        (base.initializer.bind s.routine?).map (·.pruned s) := by
      rw [s.bind_routine?_pruned, ← s.bind_routine?_knownRoutine base.initializer]
      rfl
    simp only [Option.map_some, own, Option.any_map]
    rfl

theorem any_hasBaseConstructor_pruned (id : Option TypeId) :
    (s.knownType id).any s.pruned.hasBaseConstructor = id.any s.hasBaseConstructor := by
  cases id with
  | none => rfl
  | some id =>
    rw [knownType_some]
    by_cases inside : id < s.types.length
    · rw [if_pos inside]
      exact s.hasBaseConstructor_pruned id
    · have nothing : s.type? id = none := List.getElem?_eq_none (Nat.not_lt.1 inside)
      rw [if_neg inside, Option.any_some, hasBaseConstructor, nothing]
      rfl

end SymbolTable

/-- No identifier of the table points past the end of its list. -/
structure SymbolTable.Closed (s : SymbolTable) : Prop where
  base : ∀ t ∈ s.types, ∀ b ∈ t.base, ∀ id ∈ b.symbol, id < s.types.length
  initializer : ∀ t ∈ s.types, ∀ id ∈ t.initializer, id < s.routines.length
  owner : ∀ r ∈ s.routines, ∀ id ∈ r.containingType, id < s.types.length

theorem SymbolTable.closed_pruned (s : SymbolTable) : s.pruned.Closed := by
  have inside {n : Nat} {id : Option Nat} {known : Nat} (kept : known ∈ id.filter (· < n)) :
      known < n := of_decide_eq_true (Option.mem_filter_iff.1 kept).2
  constructor
  · intro t listed b extended id kept
    obtain ⟨t, -, rfl⟩ := List.mem_map.1 listed
    obtain ⟨b, -, rfl⟩ := Option.map_eq_some_iff.1 extended
    rw [s.length_types_pruned]
    exact inside kept
  · intro t listed id kept
    obtain ⟨t, -, rfl⟩ := List.mem_map.1 listed
    rw [s.length_routines_pruned]
    exact inside kept
  · intro r listed id kept
    obtain ⟨r, -, rfl⟩ := List.mem_map.1 listed
    rw [s.length_types_pruned]
    exact inside kept

end FlowLint
