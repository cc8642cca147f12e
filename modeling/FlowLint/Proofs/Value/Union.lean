import FlowLint.Proofs.Value.Registry

/-!
Unions of masks. Unless all slots are selected in the end, a union selects what either mask selects,
and each question about types is answered for it from the answers for both. What is selected is
rendered by name, in the order of the slots.
-/

namespace FlowLint

namespace Mask

variable {a b : Mask}

theorem isVoid_union (a b : Mask) : (a ∪ b).isVoid = (a.isVoid && b.isVoid) := by
  rw [Bool.eq_iff_iff, Bool.and_eq_true]
  simp only [isVoid_iff, has_union, Bool.or_eq_false_iff, forall_and]

theorem isDecidable_union (known : (a ∪ b).isAny = false) :
    (a ∪ b).isDecidable = (a.isDecidable && b.isDecidable) := by
  obtain ⟨first, second⟩ := isAny_of_isAny_union_eq_false known
  rw [isDecidable, isDecidable, isDecidable, known, first, second, isRef_union, Bool.not_or]
  rfl

end Mask

namespace Registry

variable (r : Registry) {a b m : Mask}

theorem mem_concrete_union (known : (a ∪ b).isAny = false) {t : ValueType} :
    t ∈ r.concrete (a ∪ b) ↔ t ∈ r.concrete a ∨ t ∈ r.concrete b := by
  obtain ⟨first, second⟩ := Mask.isAny_of_isAny_union_eq_false known
  simp only [mem_concrete_iff, known, first, second, true_and, Mask.has_union, Bool.or_eq_true,
    and_or_left]

theorem concrete_union (known : (a ∪ b).isAny = false) :
    r.concrete (a ∪ b) = r.types.filter fun t => t ∈ r.concrete a ∨ t ∈ r.concrete b := by
  apply concrete_eq_filter
  intro t
  rw [mem_concrete_union r known, decide_eq_true_iff, iff_and_self]
  rintro (selected | selected)
  · exact (mem_concrete_iff.1 selected).2.1
  · exact (mem_concrete_iff.1 selected).2.1

theorem any_concrete_union (known : (a ∪ b).isAny = false) (p : ValueType → Bool) :
    (r.concrete (a ∪ b)).any p = ((r.concrete a).any p || (r.concrete b).any p) := by
  rw [Bool.eq_iff_iff, Bool.or_eq_true]
  simp only [List.any_eq_true, mem_concrete_union r known, or_and_right, exists_or]

theorem all_concrete_union (known : (a ∪ b).isAny = false) (p : ValueType → Bool) :
    (r.concrete (a ∪ b)).all p = ((r.concrete a).all p && (r.concrete b).all p) := by
  rw [Bool.eq_iff_iff, Bool.and_eq_true]
  simp only [List.all_eq_true, mem_concrete_union r known, or_imp, forall_and]

theorem maybeCallable_union (known : (a ∪ b).isAny = false) :
    r.maybeCallable (a ∪ b) = (r.maybeCallable a || r.maybeCallable b) := by
  rw [maybeCallable, maybeCallable, maybeCallable, any_concrete_union r known,
    Mask.isDecidable_union known, Bool.not_and]
  ac_rfl

theorem onlyObjects_union (known : (a ∪ b).isAny = false) (first : a.isVoid = false)
    (second : b.isVoid = false) :
    r.onlyObjects (a ∪ b) = (r.onlyObjects a && r.onlyObjects b) := by
  rw [onlyObjects, onlyObjects, onlyObjects, all_concrete_union r known,
    Mask.isDecidable_union known, Mask.isVoid_union, first, second]
  simp only [Bool.and_false, Bool.not_false, Bool.and_true]
  ac_rfl

def Shows (m : Mask) (i : Nat) (name : String) : Prop :=
  m.has i = true ∧ ∃ t, r.types[i]? = some t ∧ t.name = name

/-- The names that the mask shows, each once, in the order of the first slots that show them. -/
structure Lists (m : Mask) (names : List String) : Prop where
  distinct : names.Nodup
  complete : ∀ name, name ∈ names ↔ ∃ i, r.Shows m i name
  ordered : names.Pairwise fun x y => ∃ i, r.Shows m i x ∧ ∀ j, r.Shows m j y → i < j

theorem shows_iff (known : m.isAny = false) {i : Nat} {name : String} :
    r.Shows m i name ↔ ∃ t ∈ r.concrete m, r.types.idxOf t = i ∧ t.name = name := by
  simp only [Shows, mem_concrete_iff, getElem?_types_eq_some_iff]
  constructor
  · rintro ⟨selected, t, ⟨registered, rfl⟩, named⟩
    exact ⟨t, ⟨known, registered, selected⟩, rfl, named⟩
  · rintro ⟨t, ⟨-, registered, selected⟩, rfl, named⟩
    exact ⟨selected, t, ⟨registered, rfl⟩, named⟩

theorem lists_names (known : m.isAny = false) :
    r.Lists m ((r.concrete m).map ValueType.name).eraseDups where
  distinct := nodup_eraseDups _
  complete := by
    intro name
    simp only [List.mem_eraseDups, List.mem_map, r.shows_iff known]
    constructor
    · exact fun ⟨t, selected, named⟩ => ⟨_, t, selected, rfl, named⟩
    · exact fun ⟨_, t, selected, _, named⟩ => ⟨t, selected, named⟩
  ordered := by
    refine (eraseDups_map_pairwise _ ValueType.name (concrete_pairwise r m)).imp ?_
    rintro x y ⟨t, selected, named, before⟩
    refine ⟨_, (r.shows_iff known).2 ⟨t, selected, rfl, named⟩, fun j shown => ?_⟩
    obtain ⟨u, member, rfl, other⟩ := (r.shows_iff known).1 shown
    exact before u member other

theorem render_eq_names (known : m.isAny = false) (some : m.isVoid = false) :
    r.render m = (if m.isRef then "&" else "") ++
      "|".intercalate ((r.concrete m).map ValueType.name).eraseDups := by
  simp [render, known, some]

/-- What can be told of a union from its parts, for all masks, whatever slots are registered. Unless
all slots are selected, it selects the types of both in the order of their slots, and the answers to
the questions about types are joined. If all are, nothing is known of it. A mask between the two is
rendered by the names that it shows. -/
theorem union_exact (r : Registry) (a b : Mask) :
    ((a ∪ b).isAny = false →
      r.concrete (a ∪ b) = (r.types.filter fun t => t ∈ r.concrete a ∨ t ∈ r.concrete b) ∧
      r.hasString (a ∪ b) = (r.hasString a || r.hasString b) ∧
      r.hasObject (a ∪ b) = (r.hasObject a || r.hasObject b) ∧
      r.hasArray (a ∪ b) = (r.hasArray a || r.hasArray b) ∧
      r.maybeCallable (a ∪ b) = (r.maybeCallable a || r.maybeCallable b) ∧
      (a.isVoid = false → b.isVoid = false →
        r.onlyObjects (a ∪ b) = (r.onlyObjects a && r.onlyObjects b))) ∧
    ((a ∪ b).isAny = true →
      r.concrete (a ∪ b) = [] ∧ r.hasString (a ∪ b) = false ∧ r.hasObject (a ∪ b) = false ∧
        r.hasArray (a ∪ b) = false ∧ r.onlyObjects (a ∪ b) = false ∧
        r.maybeCallable (a ∪ b) = true) ∧
    ∀ m : Mask, m.isAny = false → m.isVoid = false →
      ∃ names, r.Lists m names ∧
        r.render m = (if m.isRef then "&" else "") ++ "|".intercalate names := by
  refine ⟨fun known => ?_, fun any => ?_, fun m known some => ?_⟩
  · exact ⟨r.concrete_union known, r.any_concrete_union known _, r.any_concrete_union known _,
      r.any_concrete_union known _, r.maybeCallable_union known, r.onlyObjects_union known⟩
  · have undecidable : (a ∪ b).isDecidable = false := by rw [Mask.isDecidable, any]; rfl
    simp [hasString, hasObject, hasArray, onlyObjects, maybeCallable, undecidable,
      concrete_of_isAny any]
  · exact ⟨_, r.lists_names known, r.render_eq_names known some⟩

/-- Two of these types go by the same name. -/
def mixed : Registry := .ofList [.string, .object, .writableString, .instanceOf "C" none]

def nearlyAny : Mask := ⟨(BitVec.allOnes 61).setWidth 64⟩

theorem nearlyAny_union :
    mixed.concrete (nearlyAny ∪ (Mask.ofSlot 1).withRef) =
        [.string, .object, .writableString, .instanceOf "C" none] ∧
      mixed.onlyObjects (.ofSlot 1 ∪ .ofSlot 3) = true ∧
      mixed.hasObject (nearlyAny ∪ .ofSlot 61) = false ∧
      ∃ names, mixed.Lists nearlyAny.withRef names ∧
        mixed.render nearlyAny.withRef = "&" ++ "|".intercalate names := by
  obtain ⟨joined, -, rendered⟩ := union_exact mixed nearlyAny (Mask.ofSlot 1).withRef
  obtain ⟨-, -, -, -, -, objects⟩ := (union_exact mixed (.ofSlot 1) (.ofSlot 3)).1 (by decide)
  obtain ⟨-, -, unknown, -⟩ := (union_exact mixed nearlyAny (.ofSlot 61)).2.1 (by decide)
  refine ⟨?_, ?_, unknown, rendered nearlyAny.withRef (by decide) (by decide)⟩
  · rw [(joined (by decide)).1]
    decide +kernel
  · rw [objects (by decide) (by decide)]
    decide +kernel

end Registry

end FlowLint
