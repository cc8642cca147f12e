import FlowLint.Proofs.Pool
import FlowLint.Proofs.Remark

/-!
Constructors that never call the one of their parent. Whether a routine owes such a call is read off
the symbol table, and whether it makes one off the blocks that control can reach: the call counts
wherever it stands in them, and nowhere else.
-/

namespace FlowLint

/-- The immediate base of the type is a class that can be instantiated and has a constructor of its
own that is not abstract. -/
def SymbolTable.InheritsConstructor (s : SymbolTable) (id : TypeId) : Prop :=
  ∃ type written baseId base initializerId initializer,
    s.types[id]? = some type ∧ type.base = some written ∧ written.symbol = some baseId ∧
      s.types[baseId]? = some base ∧ base.kind = .regular ∧ base.isAbstract = false ∧
      base.initializer = some initializerId ∧ s.routines[initializerId]? = some initializer ∧
      initializer.isAbstract = false

theorem SymbolTable.hasBaseConstructor_iff {s : SymbolTable} {id : TypeId} :
    s.hasBaseConstructor id = true ↔ s.InheritsConstructor id := by
  unfold hasBaseConstructor
  constructor
  · intro inherits
    split at inherits
    · cases inherits
    · rename_i base found
      obtain ⟨baseId, linked, present⟩ := Option.bind_eq_some_iff.1 found
      obtain ⟨written, extending, symbol⟩ := Option.bind_eq_some_iff.1 linked
      obtain ⟨type, listed, base?⟩ := Option.bind_eq_some_iff.1 extending
      obtain ⟨concrete, constructs⟩ := Bool.and_eq_true_iff.1 inherits
      obtain ⟨initializer, own, whole⟩ := (Option.any_eq_true _ _).1 constructs
      obtain ⟨initializerId, declares, routine⟩ := Option.bind_eq_some_iff.1 own
      simp only [TypeSymbol.isAbstractLike, Bool.not_or, Bool.and_eq_true, Bool.not_eq_true',
        bne_eq_false_iff_eq] at concrete
      exact ⟨type, written, baseId, base, initializerId, initializer, listed, base?, symbol,
        present, concrete.2, concrete.1, declares, routine, by simpa using whole⟩
  · rintro ⟨type, written, baseId, base, initializerId, initializer, listed, base?, symbol,
      present, regular, concrete, declares, routine, whole⟩
    simp [type?, routine?, listed, base?, symbol, present, TypeSymbol.isAbstractLike, regular,
      concrete, declares, routine, whole]

/-- A constructor of a class that inherits one. The case of its name does not matter. -/
def RoutineSymbol.OwesParent (s : SymbolTable) (r : RoutineSymbol) : Prop :=
  r.kind = .method ∧ Text.sameIgnoringCase r.name constructorName = true ∧
    ∃ id, r.containingType = some id ∧ s.InheritsConstructor id

theorem RoutineSymbol.owesParent_iff {s : SymbolTable} {r : RoutineSymbol} :
    (r.isConstructor && r.containingType.any s.hasBaseConstructor) = true ↔ r.OwesParent s := by
  simp only [isConstructor, OwesParent, Bool.and_eq_true, beq_iff_eq, and_assoc,
    Option.any_eq_true, SymbolTable.hasBaseConstructor_iff]

/-- A static call of the constructor by that name, through the reserved name of the parent. What it
is bound to does not matter. -/
def Expr.CallsParent (e : Expr) : Prop :=
  ∃ type name target arguments nameSpan,
    e.form = .call ⟨.static type (.direct name), target, arguments, nameSpan⟩ ∧
      type.name = .reserved .parent ∧ Text.sameIgnoringCase name constructorName = true

theorem Node.isParentCall_iff {n : Node} :
    n.isParentCall = true ↔ ∃ e, n = .expr e ∧ e.CallsParent := by
  constructor
  · intro calls
    cases n with
    | expr e =>
      refine ⟨e, rfl, ?_⟩
      simp only [isParentCall] at calls
      split at calls
      · rename_i call form
        obtain ⟨callee, target, arguments, nameSpan⟩ := call
        simp only [Context.callsParentConstructor] at calls
        split at calls
        · rename_i type name
          obtain ⟨parent, named⟩ := Bool.and_eq_true_iff.1 calls
          refine ⟨type, name, target, arguments, nameSpan, form, ?_, named⟩
          unfold TypeReference.isParent at parent
          split at parent
          · assumption
          · cases parent
        · cases calls
      · cases calls
    | _ => cases calls
  · rintro ⟨e, rfl, type, name, target, arguments, nameSpan, form, parent, named⟩
    simp [isParentCall, form, Context.callsParentConstructor, TypeReference.isParent, parent, named]

/-- Control can reach a block that has such a call anywhere inside. -/
def Graph.CallsParent (g : Graph) : Prop :=
  ∃ b ∈ g.blocks, g.Reachable b.ordinal ∧ ∃ e, (Node.block b).Contains (.expr e) ∧ e.CallsParent

theorem Graph.callsParent_iff {g : Graph} (sorted : Ascending g.blocks) :
    g.entered.any Node.isParentCall = true ↔ g.CallsParent := by
  simp only [List.any_eq_true, Graph.entered, List.mem_flatMap, mem_reachableBlocks_iff sorted,
    Node.mem_entered_iff, Node.isParentCall_iff, CallsParent]
  constructor
  · rintro ⟨-, ⟨b, ⟨listed, reached⟩, inside⟩, e, rfl, calls⟩
    exact ⟨b, listed, reached, e, inside, calls⟩
  · rintro ⟨b, listed, reached, e, inside, calls⟩
    exact ⟨_, ⟨b, ⟨listed, reached⟩, inside⟩, e, rfl, calls⟩

namespace Context

variable (c : Context)

/-- What is said of a constructor that does not make the call. -/
def omission : Remark :=
  ⟨some c.symbol.heading, .parentConstructorNotCalled ((c.owner.map (·.name)).getD "")⟩

open Classical in
theorem parentConstructor_walk {g : Graph} (sorted : Ascending g.blocks) :
    c.parentConstructor (c.walk g).callsParent =
      if c.symbol.OwesParent c.symbols ∧ ¬ g.CallsParent then [c.omission] else [] := by
  have omits : (!(c.walk g).callsParent && c.symbol.isConstructor &&
      c.symbol.containingType.any c.symbols.hasBaseConstructor) = true ↔
        c.symbol.OwesParent c.symbols ∧ ¬ g.CallsParent := by
    rw [Bool.and_assoc, Bool.and_eq_true, Bool.not_eq_true', ← Bool.not_eq_true, walk_callsParent,
      RoutineSymbol.owesParent_iff, Graph.callsParent_iff sorted, and_comm]
  rw [parentConstructor, remarkIf]
  exact if_congr omits rfl rfl

theorem found_or_later_not_omission {g : Graph} :
    ∀ r ∈ (c.walk g).found ++ (labels g.labels ++ unreachableCode g), r.finding.code ≠ "W0206" := by
  have other : ∀ code ∈ ["E0101", "E0102", "W0201"], code ≠ "W0206" := by decide
  have later : Within ["E0101", "E0102", "W0201"] (labels g.labels ++ unreachableCode g) :=
    (labels_within g.labels (by decide)).append (unreachableCode_within g (by decide))
  intro r member
  rcases List.mem_append.1 member with walked | made
  · intro omission
    apply c.walk_not_routine r walked
    rw [omission]
    decide
  · exact other _ (later r made)

theorem routine_of_omits {g : Graph} (sorted : Ascending g.blocks)
    (omits : c.symbol.OwesParent c.symbols ∧ ¬ g.CallsParent) :
    c.routine g = (c.walk g).found ++ c.omission :: (labels g.labels ++ unreachableCode g) := by
  rw [routine, c.parentConstructor_walk sorted, if_pos omits]
  simp

theorem span_of_omission {g : Graph} {r : Remark} (member : r ∈ c.routine g)
    (code : r.finding.code = "W0206") : r.span = some c.symbol.heading := by
  simp only [routine, List.append_assoc, List.mem_append] at member
  rcases member with walked | parent | later
  · exact absurd code (c.found_or_later_not_omission r (List.mem_append_left _ walked))
  · rw [(mem_remarkIf.1 parent).2]
  · exact absurd code
      (c.found_or_later_not_omission r (List.mem_append_right _ (List.mem_append.2 later)))

theorem exists_omission_iff {g : Graph} (sorted : Ascending g.blocks) :
    (∃ r ∈ c.routine g, r.finding.code = "W0206") ↔
      c.symbol.OwesParent c.symbols ∧ ¬ g.CallsParent := by
  constructor
  · rintro ⟨r, member, code⟩
    by_contra silent
    rw [routine, c.parentConstructor_walk sorted, if_neg silent, List.append_nil,
      List.append_assoc] at member
    exact c.found_or_later_not_omission r member code
  · intro omits
    rw [c.routine_of_omits sorted omits]
    exact ⟨_, List.mem_append_right _ List.mem_cons_self, rfl⟩

end Context

def Routine.walked (symbols : SymbolTable) (r : Routine) (symbol : RoutineSymbol) (g : Graph) :
    List Diagnostic :=
  ((r.context symbols symbol).walk g).found.map (·.diagnostic r.symbol symbol.heading)

namespace Program

/-- A routine is told that it does not call the constructor of its parent exactly if it owes that
call and control can reach none; and then once, after all that the walk finds. -/
theorem omission_exact {p : Program} {s : Sink} {r : Routine} {g : Graph}
    (valid : p.defect? = none) (yields : p.Yields s) (listed : r ∈ p.routines)
    (body : r.graph = some g) :
    ∃ symbol, p.symbols.routine? r.symbol = some symbol ∧
      ((∃ d ∈ s.all, d.routine = r.symbol ∧ d.code = "W0206") ↔
        symbol.OwesParent p.symbols ∧ ¬ g.CallsParent) ∧
      (symbol.OwesParent p.symbols ∧ ¬ g.CallsParent →
        ∃ later,
          (s.all.filter fun d => d.routine == r.symbol) =
            r.walked p.symbols symbol g ++
              ⟨r.symbol, symbol.heading,
                .parentConstructorNotCalled (((p.symbols.ownerOf symbol).map (·.name)).getD "")⟩ ::
              later ∧
          ∀ d ∈ r.walked p.symbols symbol g ++ later, d.code ≠ "W0206") := by
  rw [defect?_eq_none_iff] at valid
  obtain ⟨symbol, declared⟩ := valid.declared r listed
  have sorted := (valid.sound r listed g body).sorted
  have own := Routine.diagnostics_eq body declared
  let later := (Context.labels g.labels ++ Context.unreachableCode g).map
    (·.diagnostic r.symbol symbol.heading)
  refine ⟨symbol, declared, ?_, fun omits => ⟨later, ?_, ?_⟩⟩
  · calc
      _ ↔ ∃ d ∈ r.diagnostics p.symbols, d.code = "W0206" :=
        yields.exists_of_routine_iff valid listed
      _ ↔ ∃ remark ∈ (r.context p.symbols symbol).routine g, remark.finding.code = "W0206" := by
        simp only [own, List.mem_map, exists_exists_and_eq_and]
        rfl
      _ ↔ symbol.OwesParent p.symbols ∧ ¬ g.CallsParent :=
        (r.context p.symbols symbol).exists_omission_iff sorted
  · rw [yields.filter_routine valid listed, own, Context.routine_of_omits _ sorted omits,
      List.map_append, List.map_cons]
    rfl
  · rw [Routine.walked, ← List.map_append]
    intro d member
    obtain ⟨remark, made, rfl⟩ := List.mem_map.1 member
    exact (r.context p.symbols symbol).found_or_later_not_omission remark made

def returning (behind : Block) : Graph :=
  { start := 0
    exit := 2
    blocks :=
      [⟨0, .start, [⟨.return none, some ⟨60, 67⟩⟩], some (.jump 2)⟩, behind, ⟨2, .exit, [], none⟩]
    labels := []
    unreachable := [1] }

/-- A call of the constructor of the parent with a guarded part around it that lasts from the start
of the routine to its end. -/
def callBehindReturn : Block :=
  let call : Expr :=
    ⟨.call ⟨.static ⟨.reserved .parent, .resolved 0, none⟩ (.direct "__CONSTRUCT"), .missing, [],
      none⟩, some ⟨70, 91⟩, .void, ⟨false, false, false, false⟩, none, none⟩
  ⟨1, .plain, [⟨.expression call, some ⟨70, 92⟩⟩], some (.guarded ⟨1, [], some 0, 2⟩)⟩

theorem callBehindReturn_sound : (returning callBehindReturn).Sound := ⟨by decide, by decide⟩

def derivedClass (body : Graph) : Program :=
  let constructs (owner : TypeId) (heading : Span) : RoutineSymbol :=
    ⟨"__construct", .method, some owner, [], false, false, none, none, heading⟩
  { symbols :=
      ⟨[⟨"Base", none, .regular, false, false, none, none, some 0⟩,
        ⟨"Derived", none, .regular, false, false, none, some ⟨"Base", some 0⟩, some 1⟩],
       [constructs 0 ⟨0, 20⟩, constructs 1 ⟨30, 50⟩]⟩
    routines := [⟨1, some body, .empty⟩] }

theorem derivedClass_valid {body : Graph} (sound : body.Sound) : (derivedClass body).Valid where
  declared := by simp [derivedClass, SymbolTable.routine?]
  distinct := by simp [derivedClass]
  sound := by simp [derivedClass, sound]

theorem returning_not_reachable {behind : Block} (second : behind.ordinal = 1) :
    ¬ (returning behind).Reachable 1 := by
  -- nothing but the block itself leads to it
  have other (id : Nat) (reached : (returning behind).Reachable id) : id ≠ 1 := by
    induction reached with
    | refl => exact Nat.zero_ne_one
    | tail _ leads ih =>
      obtain ⟨b, listed, rfl, e, leaving, target⟩ := leads
      simp only [returning, List.mem_cons, List.not_mem_nil, or_false] at listed
      rcases listed with rfl | rfl | rfl
      · obtain rfl := Option.some.inj leaving
        obtain rfl := List.mem_singleton.1 target
        decide
      · exact absurd second ih
      · cases leaving
  exact fun reached => other 1 reached rfl

theorem returning_callsNothing {behind : Block} (second : behind.ordinal = 1) :
    ¬ (returning behind).CallsParent := by
  rintro ⟨b, listed, reached, e, inside, -⟩
  rw [← Node.mem_entered_iff] at inside
  simp only [returning, List.mem_cons, List.not_mem_nil, or_false] at listed
  rcases listed with rfl | rfl | rfl
  · simp [Node.entered_eq, Node.children, Statement.parts, Edge.parts] at inside
  · rw [second] at reached
    exact returning_not_reachable second reached
  · simp [Node.entered_eq, Node.children] at inside

theorem derivedClass_owes (body : Graph) {symbol : RoutineSymbol}
    (declared : (derivedClass body).symbols.routine? 1 = some symbol) :
    symbol.OwesParent (derivedClass body).symbols := by
  obtain rfl := Option.some.inj declared
  refine ⟨rfl, by simp [Text.sameIgnoringCase, constructorName], 1, rfl, ?_⟩
  exact ⟨_, _, _, _, _, _, rfl, rfl, rfl, rfl, rfl, rfl, rfl, rfl, rfl⟩

theorem callBehindReturn_omitted :
    (derivedClass (returning callBehindReturn)).defect? = none ∧
      ⟨1, ⟨30, 50⟩, .parentConstructorNotCalled "Derived"⟩ ∈
        (derivedClass (returning callBehindReturn)).analyze.all := by
  have valid := defect?_eq_none_iff.2 (derivedClass_valid callBehindReturn_sound)
  obtain ⟨symbol, declared, -, ordered⟩ :=
    omission_exact valid (yields_analyze _) (List.mem_singleton.2 rfl) rfl
  obtain ⟨later, own, -⟩ :=
    ordered ⟨derivedClass_owes _ declared, returning_callsNothing rfl⟩
  obtain rfl := Option.some.inj declared
  have among : ⟨1, ⟨30, 50⟩, .parentConstructorNotCalled "Derived"⟩ ∈
      (derivedClass (returning callBehindReturn)).analyze.all.filter fun d => d.routine == 1 := by
    rw [own]
    exact List.mem_append_right _ List.mem_cons_self
  exact ⟨valid, List.mem_of_mem_filter among⟩

end Program

end FlowLint
