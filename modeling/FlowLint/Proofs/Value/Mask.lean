import FlowLint.Value.Mask

/-!
What a mask selects. Every way to build a mask is told by the slots that it selects and by whether
it marks a reference.
-/

namespace FlowLint.Mask

variable {m n : Mask} {i : Nat}

theorem lt_of_has (selected : m.has i = true) : i < slotCount :=
  of_decide_eq_true (Bool.and_eq_true_iff.1 selected).1

@[simp] theorem has_void : void.has i = false := by simp [has, void]

@[simp] theorem isRef_void : void.isRef = false := by simp [isRef, void]

theorem has_any : any.has i = decide (i < slotCount) := by
  by_cases slot : i < slotCount
  · have bit : i < 64 := by
      unfold slotCount at slot
      omega
    simp [has, any, slot, bit]
  · simp [has, slot]

theorem ofSlot_of_le (beyond : slotCount ≤ i) : ofSlot i = any :=
  if_neg (Nat.not_lt.2 beyond)

theorem has_ofSlot_of_lt (slot : i < slotCount) (j : Nat) : (ofSlot i).has j = decide (i = j) := by
  rw [ofSlot, if_pos slot, has, BitVec.getLsbD_twoPow]
  unfold slotCount at slot ⊢
  grind

@[simp] theorem isRef_ofSlot : (ofSlot i).isRef = false := by
  by_cases slot : i < slotCount
  · have other : 63 ≠ i := by
      unfold slotCount at slot
      omega
    simp [ofSlot, slot, isRef, other]
  · rw [ofSlot_of_le (Nat.not_lt.1 slot)]
    decide

theorem exists_has_ofSlot (i : Nat) : ∃ j, (ofSlot i).has j = true := by
  by_cases slot : i < slotCount
  · exact ⟨i, by rw [has_ofSlot_of_lt slot, decide_eq_true rfl]⟩
  · exact ⟨0, by rw [ofSlot_of_le (Nat.not_lt.1 slot)]; decide⟩

theorem isVoid_iff : m.isVoid = true ↔ ∀ i, m.has i = false := by
  rw [isVoid, List.isEmpty_iff, List.eq_nil_iff_forall_not_mem]
  simp only [mem_slots, Bool.not_eq_true]

theorem slots_pairwise (m : Mask) : m.slots.Pairwise (· < ·) :=
  List.pairwise_lt_range.filter _

theorem isDecidable_iff : m.isDecidable = true ↔ m.isAny = false ∧ m.isRef = false := by
  rw [isDecidable, Bool.and_eq_true, Bool.not_eq_true', Bool.not_eq_true']

theorem isAny_of_isAny_union_eq_false (known : (m ∪ n).isAny = false) :
    m.isAny = false ∧ n.isAny = false := by
  simp only [Bool.eq_false_iff, ne_eq, isAny_iff] at known ⊢
  constructor
  · exact fun all => known fun i slot => by rw [has_union, all i slot, Bool.true_or]
  · exact fun all => known fun i slot => by rw [has_union, all i slot, Bool.or_true]

end FlowLint.Mask
