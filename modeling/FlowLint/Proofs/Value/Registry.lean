import FlowLint.Proofs.Ordered
import FlowLint.Proofs.Value.Mask
import FlowLint.Value.Registry
import Mathlib.Data.List.Induction
import Mathlib.Logic.Relation

/-!
What registration does. A registry only ever grows at its end, so that a mask keeps its meaning in
all that becomes of the registry later. The mask of several types selects exactly these, unless the
slots run out or all of them are taken by these types.
-/

namespace FlowLint.Registry

variable {r s : Registry} {t : ValueType} {ts : List ValueType} {m : Mask} {i : Nat}

theorem insert_of_mem (known : t ∈ r.types) : r.insert t = r := dif_pos known

theorem types_insert (r : Registry) (t : ValueType) :
    (r.insert t).types = r.types ++ if t ∈ r.types then [] else [t] := by
  by_cases known : t ∈ r.types <;> simp [insert, known]

theorem insertAll_concat (r : Registry) (ts : List ValueType) (t : ValueType) :
    r.insertAll (ts ++ [t]) = (r.insertAll ts).insert t := by
  rw [insertAll, List.foldl_append]
  rfl

theorem types_insertAll (r : Registry) (ts : List ValueType) :
    (r.insertAll ts).types = (r.types ++ ts).eraseDups := by
  -- a registry grows at its end, so that the last registration is the step
  induction ts using List.reverseRecOn with
  | nil => rw [List.append_nil, eraseDups_of_nodup r.distinct]; rfl
  | append_singleton ts t ih =>
    rw [insertAll_concat, types_insert, ih, ← List.append_assoc, eraseDups_concat]
    simp only [List.mem_eraseDups]

theorem mem_insertAll_iff : t ∈ (r.insertAll ts).types ↔ t ∈ r.types ∨ t ∈ ts := by
  rw [types_insertAll, List.mem_eraseDups, List.mem_append]

theorem ofList_types (r : Registry) : ofList r.types = r := by
  have types : (ofList r.types).types = r.types := by
    rw [ofList, types_insertAll]
    exact eraseDups_of_nodup r.distinct
  cases r
  cases h : ofList _
  simp_all

theorem prefix_insert (r : Registry) (t : ValueType) : r.types <+: (r.insert t).types := by
  rw [types_insert]
  exact List.prefix_append _ _

theorem prefix_insertAll (r : Registry) (ts : List ValueType) :
    r.types <+: (r.insertAll ts).types := by
  induction ts using List.reverseRecOn with
  | nil => exact List.prefix_rfl
  | append_singleton ts t ih =>
    rw [insertAll_concat]
    exact ih.trans (prefix_insert _ t)

theorem idxOf_of_prefix (longer : r.types <+: s.types) (known : t ∈ r.types) :
    s.types.idxOf t = r.types.idxOf t := by
  obtain ⟨behind, same⟩ := longer
  rw [← same, List.idxOf_append_of_mem known]

theorem maskOf_concat (r : Registry) (ts : List ValueType) (t : ValueType) :
    r.maskOf (ts ++ [t]) =
      ((r.maskOf ts).1.insert t, (r.maskOf ts).2 ∪ (r.maskOf ts).1.maskAfterInsert t) := by
  rw [maskOf, List.foldl_append]
  rfl

theorem maskOf_fst (r : Registry) (ts : List ValueType) : (r.maskOf ts).1 = r.insertAll ts := by
  induction ts using List.reverseRecOn with
  | nil => rfl
  | append_singleton ts t ih => rw [maskOf_concat, insertAll_concat, ih]

/-- The mask of several types is the union of the masks of each, whenever it is looked up. -/
theorem has_maskOf_iff : (r.maskOf ts).2.has i = true ↔
    ∃ t ∈ ts, (Mask.ofSlot ((r.insertAll ts).types.idxOf t)).has i = true := by
  induction ts using List.reverseRecOn with
  | nil => simp [maskOf]
  | append_singleton ts t ih =>
    -- one more type leaves the slots of those before it alone
    have earlier (u : ValueType) (member : u ∈ ts) :
        ((r.insertAll ts).insert t).types.idxOf u = (r.insertAll ts).types.idxOf u :=
      idxOf_of_prefix (prefix_insert _ t) (mem_insertAll_iff.2 (.inr member))
    rw [maskOf_concat, Mask.has_union, Bool.or_eq_true, ih, insertAll_concat, maskOf_fst,
      maskAfterInsert]
    simp only [List.mem_append, List.mem_singleton, or_and_right, exists_or, exists_eq_left]
    refine or_congr_left (exists_congr fun u => and_congr_right fun member => ?_)
    rw [earlier u member]

theorem isRef_maskOf (r : Registry) (ts : List ValueType) : (r.maskOf ts).2.isRef = false := by
  induction ts using List.reverseRecOn with
  | nil => exact Mask.isRef_void
  | append_singleton ts t ih =>
    rw [maskOf_concat, Mask.isRef_union, ih, maskAfterInsert, Mask.isRef_ofSlot, Bool.or_false]

theorem isVoid_maskOf_iff : (r.maskOf ts).2.isVoid = true ↔ ts = [] := by
  rw [Mask.isVoid_iff]
  refine ⟨fun nothing => ?_, fun none i => ?_⟩
  · rw [List.eq_nil_iff_forall_not_mem]
    intro t member
    obtain ⟨i, selected⟩ := Mask.exists_has_ofSlot ((r.insertAll ts).types.idxOf t)
    have found := has_maskOf_iff.2 ⟨t, member, selected⟩
    rw [nothing i] at found
    cases found
  · subst none
    exact Mask.has_void

/-- A use of a registry that may register types. -/
inductive Step : Registry → Registry → Prop where
  | register (r : Registry) (t : ValueType) : Step r (r.register t).1
  | maskOf (r : Registry) (ts : List ValueType) : Step r (r.maskOf ts).1

abbrev Grows : Registry → Registry → Prop := Relation.ReflTransGen Step

theorem Step.longer (step : Step r s) : r.types <+: s.types := by
  cases step with
  | register t => exact prefix_insert r t
  | maskOf ts =>
    rw [maskOf_fst]
    exact prefix_insertAll r ts

theorem Grows.longer (grows : Grows r s) : r.types <+: s.types := by
  induction grows with
  | refl => exact List.prefix_rfl
  | tail _ step ih => exact ih.trans step.longer

theorem getElem?_types_eq_some_iff : r.types[i]? = some t ↔ t ∈ r.types ∧ r.types.idxOf t = i := by
  constructor
  · intro here
    obtain ⟨within, rfl⟩ := List.getElem?_eq_some_iff.1 here
    exact ⟨List.getElem_mem within, r.distinct.idxOf_getElem i within⟩
  · rintro ⟨member, rfl⟩
    exact List.getElem?_idxOf member

theorem types_pairwise (r : Registry) :
    r.types.Pairwise fun a b => r.types.idxOf a < r.types.idxOf b := by
  rw [List.pairwise_iff_getElem]
  intro i j first second less
  rwa [r.distinct.idxOf_getElem, r.distinct.idxOf_getElem]

theorem concrete_of_isAny (any : m.isAny = true) : r.concrete m = [] := if_pos any

theorem concrete_eq (known : m.isAny = false) :
    r.concrete m = m.slots.filterMap (r.types[·]?) := if_neg (by simp [known])

theorem mem_concrete_iff_getElem? (known : m.isAny = false) :
    t ∈ r.concrete m ↔ ∃ i, m.has i = true ∧ r.types[i]? = some t := by
  simp only [concrete_eq known, List.mem_filterMap, Mask.mem_slots]

theorem mem_concrete_iff : t ∈ r.concrete m ↔
    m.isAny = false ∧ t ∈ r.types ∧ m.has (r.types.idxOf t) = true := by
  cases any : m.isAny with
  | true => simp [concrete_of_isAny any]
  | false =>
    rw [mem_concrete_iff_getElem? any, and_iff_right rfl]
    constructor
    · rintro ⟨i, selected, here⟩
      obtain ⟨registered, rfl⟩ := getElem?_types_eq_some_iff.1 here
      exact ⟨registered, selected⟩
    · exact fun ⟨registered, selected⟩ => ⟨_, selected, List.getElem?_idxOf registered⟩

theorem concrete_pairwise (r : Registry) (m : Mask) :
    (r.concrete m).Pairwise fun a b => r.types.idxOf a < r.types.idxOf b := by
  cases any : m.isAny with
  | true =>
    rw [concrete_of_isAny any]
    exact .nil
  | false =>
    rw [concrete_eq any, List.pairwise_filterMap]
    refine m.slots_pairwise.imp fun less t here u there => ?_
    rwa [(getElem?_types_eq_some_iff.1 here).2, (getElem?_types_eq_some_iff.1 there).2]

/-- The selected types stand in the order of registration, so that their list is told by its
members. -/
theorem concrete_eq_filter {selects : ValueType → Bool}
    (members : ∀ t, t ∈ r.concrete m ↔ t ∈ r.types ∧ selects t = true) :
    r.concrete m = r.types.filter selects := by
  have distinct : (r.concrete m).Nodup :=
    (concrete_pairwise r m).imp fun less => ne_of_apply_ne r.types.idxOf (Nat.ne_of_lt less)
  have perm : (r.concrete m).Perm (r.types.filter selects) := by
    rw [List.perm_ext_iff_of_nodup distinct (r.distinct.filter _)]
    intro t
    rw [members, List.mem_filter]
  exact eq_of_perm_of_pairwise _ perm (r.types_pairwise.filter _)
    ((concrete_pairwise r m).imp Nat.le_of_lt)

def Registers (r : Registry) (m : Mask) : Prop := ∀ i, m.has i = true → i < r.types.length

namespace Registers

variable (registers : r.Registers m) (longer : r.types <+: s.types)

include registers longer

theorem getElem?_eq (selected : i ∈ m.slots) : s.types[i]? = r.types[i]? := by
  have within := registers i (Mask.mem_slots.1 selected)
  rw [List.prefix_iff_getElem?.1 longer i within, List.getElem?_eq_getElem within]

theorem concrete_eq : s.concrete m = r.concrete m := by
  cases any : m.isAny with
  | true => rw [concrete_of_isAny any, concrete_of_isAny any]
  | false =>
    rw [Registry.concrete_eq any, Registry.concrete_eq any]
    exact List.filterMap_congr fun i selected => registers.getElem?_eq longer selected

theorem single?_eq : s.single? m = r.single? m := by
  have first : m.slots.head?.bind (s.types[·]?) = m.slots.head?.bind (r.types[·]?) := by
    cases head : m.slots.head? with
    | none => rfl
    | some i => exact registers.getElem?_eq longer (List.mem_of_head? head)
  rw [single?, single?, first]

theorem render_eq : s.render m = r.render m := by
  rw [render, render, registers.concrete_eq longer]

end Registers

theorem register_again (grows : (r.register t).1.Grows s) :
    s.register t = (s, (r.register t).2) := by
  have known : t ∈ (r.insert t).types := by
    rw [types_insert]
    by_cases before : t ∈ r.types <;> simp [before]
  have longer := grows.longer
  rw [register, register, insert_of_mem (longer.subset known), maskAfterInsert, maskAfterInsert,
    insert_of_mem (longer.subset known), idxOf_of_prefix longer known]
  rfl

/-- Some of the types has no slot, or together they take all slots. -/
def Exhausts (r : Registry) (ts : List ValueType) : Prop :=
  (∃ t ∈ ts, slotCount ≤ r.types.idxOf t) ∨ ∀ i < slotCount, ∃ t ∈ ts, r.types[i]? = some t

theorem has_maskOf_iff_of_slots (slots : ∀ t ∈ ts, (r.insertAll ts).types.idxOf t < slotCount) :
    (r.maskOf ts).2.has i = true ↔ ∃ t ∈ ts, (r.insertAll ts).types[i]? = some t := by
  rw [has_maskOf_iff]
  refine exists_congr fun t => and_congr_right fun member => ?_
  rw [Mask.has_ofSlot_of_lt (slots t member), decide_eq_true_iff, getElem?_types_eq_some_iff,
    and_iff_right (mem_insertAll_iff.2 (.inr member))]

theorem isAny_maskOf_iff : (r.maskOf ts).2.isAny = true ↔ (r.insertAll ts).Exhausts ts := by
  rw [Mask.isAny_iff, Exhausts]
  by_cases beyond : ∃ t ∈ ts, slotCount ≤ (r.insertAll ts).types.idxOf t
  · refine iff_of_true (fun i slot => has_maskOf_iff.2 ?_) (.inl beyond)
    obtain ⟨t, member, last⟩ := beyond
    exact ⟨t, member, by rw [Mask.ofSlot_of_le last, Mask.has_any, decide_eq_true slot]⟩
  · have slots : ∀ t ∈ ts, (r.insertAll ts).types.idxOf t < slotCount := by
      intro t member
      by_contra last
      exact beyond ⟨t, member, Nat.not_lt.1 last⟩
    simp only [has_maskOf_iff_of_slots slots, beyond, false_or]

theorem registers_maskOf (r : Registry) (ts : List ValueType) :
    (r.insertAll ts).Registers (r.maskOf ts).2 := by
  intro i selected
  obtain ⟨t, member, own⟩ := has_maskOf_iff.1 selected
  have within := List.idxOf_lt_length_iff.2 (mem_insertAll_iff (r := r).2 (.inr member))
  by_cases slot : (r.insertAll ts).types.idxOf t < slotCount
  · rw [Mask.has_ofSlot_of_lt slot, decide_eq_true_iff] at own
    rwa [← own]
  · exact Nat.lt_of_lt_of_le (Mask.lt_of_has selected)
      (Nat.le_trans (Nat.not_lt.1 slot) (Nat.le_of_lt within))

theorem concrete_maskOf (known : (r.maskOf ts).2.isAny = false) :
    (r.insertAll ts).concrete (r.maskOf ts).2 =
      (r.insertAll ts).types.filter fun t => t ∈ ts := by
  have slots : ∀ t ∈ ts, (r.insertAll ts).types.idxOf t < slotCount := by
    intro t member
    by_contra beyond
    rw [isAny_maskOf_iff.2 (.inl ⟨t, member, Nat.not_lt.1 beyond⟩)] at known
    cases known
  apply concrete_eq_filter
  intro t
  rw [mem_concrete_iff, has_maskOf_iff_of_slots slots, and_iff_right known, decide_eq_true_iff]
  refine and_congr_right fun registered => ?_
  rw [List.getElem?_idxOf registered]
  simp

/-- What registration comes to, whatever was loaded and registered before. The mask of several types
marks no reference, is void for no types only, and selects exactly these types, in the order of
registration, unless it tells nothing because one of them has no slot or they take all slots. A mask
of registered types keeps its meaning in all that becomes of the registry, and a type that is
registered again gets its mask again and changes nothing. -/
theorem maskOf_exact {r after : Registry} {ts : List ValueType} {m : Mask}
    (made : r.maskOf ts = (after, m)) :
    (after.types = (r.types ++ ts).eraseDups ∧ m.isRef = false ∧ (m.isVoid = true ↔ ts = []) ∧
      (m.isAny = true ∨ after.concrete m = after.types.filter fun t => t ∈ ts) ∧
      (m.isAny = true ↔ after.Exhausts ts) ∧ after.Registers m) ∧
    (∀ later, after.Grows later → ∀ n, after.Registers n →
      later.concrete n = after.concrete n ∧ later.single? n = after.single? n ∧
        later.render n = after.render n) ∧
    ∀ t registered n later, after.register t = (registered, n) → registered.Grows later →
      later.register t = (later, n) := by
  obtain ⟨rfl, rfl⟩ : r.insertAll ts = after ∧ (r.maskOf ts).2 = m := by
    rw [← maskOf_fst, made]
    exact ⟨rfl, rfl⟩
  refine ⟨⟨types_insertAll r ts, isRef_maskOf r ts, isVoid_maskOf_iff, ?_, isAny_maskOf_iff,
    registers_maskOf r ts⟩, ?_, ?_⟩
  · cases any : (r.maskOf ts).2.isAny with
    | true => exact .inl rfl
    | false => exact .inr (concrete_maskOf any)
  · intro later grows n registers
    have longer := grows.longer
    exact ⟨registers.concrete_eq longer, registers.single?_eq longer, registers.render_eq longer⟩
  · rintro t registered n later made grows
    obtain ⟨rfl, rfl⟩ := Prod.mk.inj made
    exact register_again grows

/-- As many types as there are slots, but for one. -/
def crowded : Registry where
  types := (List.range 61).map fun i => .instanceOf "C" (some i)
  distinct := List.nodup_range.map fun i j same => by simpa using same

def full : Registry × Mask := crowded.maskOf [.object, .instanceOf "C" (some 5), .object]

def spent : Registry × Mask := full.1.maskOf [.integer]

/-- What was selected before the slots ran out keeps its meaning. -/
theorem crowded_maskOf :
    full.1.concrete full.2 = [.instanceOf "C" (some 5), .object] ∧ spent.2.isAny = true ∧
      spent.1.concrete full.2 = full.1.concrete full.2 ∧
      (full.1.register .integer).1.register .integer = full.1.register .integer := by
  have filled : crowded.maskOf [.object, .instanceOf "C" (some 5), .object] = (full.1, full.2) :=
    (Prod.eta full).symm
  have overfull : full.1.maskOf [.integer] = (spent.1, spent.2) := (Prod.eta spent).symm
  have grows : full.1.Grows spent.1 := .single (.maskOf full.1 [.integer])
  have known : full.2.isAny = false := by decide +kernel
  have beyond : slotCount ≤ spent.1.types.idxOf .integer := by decide +kernel
  obtain ⟨⟨-, -, -, selects, -, registers⟩, stays, again⟩ := maskOf_exact filled
  obtain ⟨⟨-, -, -, -, runsOut, -⟩, -, -⟩ := maskOf_exact overfull
  have same := again .integer _ _ _ (Prod.eta (full.1.register .integer)).symm .refl
  refine ⟨?_, runsOut.2 (.inl ⟨.integer, List.mem_cons_self, beyond⟩),
    (stays _ grows full.2 registers).1, same.trans (Prod.eta _)⟩
  rw [selects.resolve_left (by simp [known])]
  decide +kernel

end FlowLint.Registry
