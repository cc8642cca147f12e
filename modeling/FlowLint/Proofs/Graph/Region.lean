import FlowLint.Proofs.Graph.Plan

/-!
The regions of constructs that are laid out in order. Such a construct adds three ranges, of which
the outer one holds the others; what many constructs add together does not depend on the order in
which they are recorded.
-/

namespace FlowLint

def Interval.Disjoint (i j : Interval) : Prop := ∀ id, id ∈ i → id ∉ j

section Consecutive

variable {stop : Nat} {lows : List Nat}

theorem map_low_consecutive (stop : Nat) (lows : List Nat) :
    (consecutive stop lows).map Interval.low = lows := by
  fun_induction consecutive stop lows with
  | case1 => rfl
  | case2 => rfl
  | case3 low high rest ih => rw [List.map_cons, ih]

theorem lt_of_mem_consecutive (ascending : (lows ++ [stop]).Pairwise (· < ·)) {i : Interval}
    (member : i ∈ consecutive stop lows) : i.low < i.high := by
  fun_induction consecutive stop lows with
  | case1 => exact absurd member List.not_mem_nil
  | case2 low =>
    rw [List.mem_singleton.1 member]
    exact List.rel_of_pairwise_cons ascending (List.mem_singleton.2 rfl)
  | case3 low high rest ih =>
    rcases List.mem_cons.1 member with rfl | later
    · exact List.rel_of_pairwise_cons ascending List.mem_cons_self
    · exact ih ascending.of_cons later

theorem consecutive_pairwise (ascending : (lows ++ [stop]).Pairwise (· < ·)) :
    (consecutive stop lows).Pairwise fun i j => i.high ≤ j.low := by
  fun_induction consecutive stop lows with
  | case1 => exact .nil
  | case2 => exact List.pairwise_singleton _ _
  | case3 low high rest ih =>
    refine List.pairwise_cons.2 ⟨?_, ih ascending.of_cons⟩
    intro j later
    have start : j.low ∈ high :: rest := by
      rw [← map_low_consecutive stop (high :: rest)]
      exact List.mem_map_of_mem later
    rcases List.mem_cons.1 start with first | behind
    · exact Nat.le_of_eq first.symm
    · apply Nat.le_of_lt
      exact List.rel_of_pairwise_cons ascending.of_cons (List.mem_append_left [stop] behind)

/-- Without a gap between them, the intervals come to one range. -/
theorem mem_consecutive_of_ascending (ascending : (lows ++ [stop]).Pairwise (· < ·)) {id : Nat} :
    (∃ i ∈ consecutive stop lows, id ∈ i) ↔
      ∃ first, lows.head? = some first ∧ first ≤ id ∧ id < stop := by
  fun_induction consecutive stop lows with
  | case1 => simp
  | case2 low => simp [Interval.mem_iff]
  | case3 low high rest ih =>
    have lower : low < high := List.rel_of_pairwise_cons ascending List.mem_cons_self
    have upper : high < stop := by
      apply List.rel_of_pairwise_cons ascending.of_cons
      exact List.mem_append_right rest (List.mem_singleton.2 rfl)
    simp only [List.mem_cons, exists_eq_or_imp]
    rw [ih ascending.of_cons]
    simp only [List.head?_cons, Option.some.injEq, exists_eq_left', Interval.mem_iff]
    omega

end Consecutive

namespace TryConstruct

variable {t : TryConstruct}

/-- The body comes first, then the handlers as they are declared, the final block and the block
that follows. Only the body may start where the next part does. -/
structure LaidOut (t : TryConstruct) : Prop where
  ascending : (t.handlers ++ t.final.toList ++ [t.next]).Pairwise (· < ·)
  body_le : ∀ id ∈ t.handlers ++ t.final.toList ++ [t.next], t.body ≤ id

instance (t : TryConstruct) : Decidable t.LaidOut :=
  decidable_of_iff ((t.handlers ++ t.final.toList ++ [t.next]).Pairwise (· < ·) ∧
      ∀ id ∈ t.handlers ++ t.final.toList ++ [t.next], t.body ≤ id)
    ⟨fun order => ⟨order.1, order.2⟩, fun order => ⟨order.ascending, order.body_le⟩⟩

/-- The handlers end where the final block or else the following one starts. -/
theorem LaidOut.handlers_ascending (ordered : t.LaidOut) :
    (t.handlers ++ [t.final.getD t.next]).Pairwise (· < ·) := by
  have ascending := ordered.ascending
  cases last : t.final with
  | none => simpa [last] using ascending
  | some final =>
    rw [last] at ascending
    exact (List.pairwise_append.1 ascending).1

theorem LaidOut.getD_le (ordered : t.LaidOut) : t.final.getD t.next ≤ t.next := by
  have ascending := ordered.ascending
  cases last : t.final with
  | none => exact Nat.le_refl t.next
  | some final =>
    rw [last] at ascending
    apply Nat.le_of_lt
    exact (List.pairwise_append.1 ascending).2.2 final (by simp) t.next (List.mem_singleton.2 rfl)

/-- The ordinals of a part of the construct, by its bounds: all handlers together start with the
first one. -/
def Extent (t : TryConstruct) : RegionKind → Nat → Prop
  | .body, id => t.body ≤ id ∧ id < t.next
  | .handler, id =>
    ∃ first, t.handlers.head? = some first ∧ first ≤ id ∧ id < t.final.getD t.next
  | .final, id => ∃ final, t.final = some final ∧ final ≤ id ∧ id < t.next

theorem LaidOut.covers_iff_extent (ordered : t.LaidOut) {kind : RegionKind} {id : Nat} :
    t.Covers kind id ↔ t.Extent kind id := by
  rw [covers_iff]
  cases kind with
  | body => simp [intervals, Interval.mem_iff, Extent]
  | handler => exact mem_consecutive_of_ascending ordered.handlers_ascending
  | final => simp [intervals, Interval.mem_iff, Extent]

theorem LaidOut.extent_body (ordered : t.LaidOut) {kind : RegionKind} {id : Nat}
    (inside : t.Extent kind id) : t.Extent .body id := by
  cases kind with
  | body => exact inside
  | handler =>
    obtain ⟨first, head, low, high⟩ := inside
    have body : t.body ≤ first := by
      apply ordered.body_le
      apply List.mem_append_left
      exact List.mem_append_left _ (List.mem_of_head? head)
    exact ⟨Nat.le_trans body low, Nat.lt_of_lt_of_le high ordered.getD_le⟩
  | final =>
    obtain ⟨final, present, low, high⟩ := inside
    have body : t.body ≤ final := ordered.body_le final (by simp [present])
    exact ⟨Nat.le_trans body low, high⟩

theorem Extent.not_final {id : Nat} (handled : t.Extent .handler id) : ¬t.Extent .final id := by
  intro ⟨final, present, low, _⟩
  obtain ⟨first, -, -, high⟩ := handled
  rw [present, Option.getD_some] at high
  exact Nat.not_lt.2 low high

theorem LaidOut.handlers_disjoint (ordered : t.LaidOut) :
    (t.intervals .handler).Pairwise Interval.Disjoint := by
  apply (consecutive_pairwise ordered.handlers_ascending).imp
  intro i j behind id inside other
  have := inside.2
  have := other.1
  omega

end TryConstruct

namespace Regions

theorem contains_recordTry_iff (r : Regions) (t : TryConstruct) (kind : RegionKind) (id : Nat) :
    (r.recordTry t).contains kind id = true ↔ r.contains kind id = true ∨ t.Covers kind id := by
  rw [contains_recordTry, TryConstruct.covers_iff]

theorem contains_empty (kind : RegionKind) (id : Nat) : empty.contains kind id = false := by
  cases kind <;> rfl

theorem contains_recordTry_empty {t : TryConstruct} (ordered : t.LaidOut) (kind : RegionKind)
    (id : Nat) : (empty.recordTry t).contains kind id = true ↔ t.Extent kind id := by
  simp [contains_recordTry_iff, contains_empty, ordered.covers_iff_extent]

theorem contains_recordTries (r : Regions) (ts : List TryConstruct) (kind : RegionKind)
    (id : Nat) :
    (ts.foldl recordTry r).contains kind id = true ↔
      r.contains kind id = true ∨ ∃ t ∈ ts, t.Covers kind id := by
  induction ts generalizing r with
  | nil => simp
  | cons t ts ih =>
    rw [List.foldl_cons, ih, contains_recordTry_iff]
    simp only [List.mem_cons, exists_eq_or_imp, or_assoc]

theorem handlers_recordAll (r : Regions) {is : List Interval}
    (nonempty : ∀ i ∈ is, i.low < i.high) :
    (r.recordAll .handler is).handlers = is.reverse ++ r.handlers := by
  induction is generalizing r with
  | nil => rfl
  | cons i is ih =>
    have step : r.recordAll .handler (i :: is) = (r.record .handler i).recordAll .handler is := rfl
    rw [List.forall_mem_cons] at nonempty
    rw [step, ih _ nonempty.2, record, if_pos nonempty.1, List.reverse_cons, List.append_assoc]
    rfl

theorem handlers_recordAll_of_ne (r : Regions) {kind : RegionKind} (other : kind ≠ .handler)
    (is : List Interval) : (r.recordAll kind is).handlers = r.handlers := by
  induction is generalizing r with
  | nil => rfl
  | cons i is ih =>
    have step : r.recordAll kind (i :: is) = (r.record kind i).recordAll kind is := rfl
    have kept : (r.record kind i).handlers = r.handlers := by
      unfold record
      split
      · cases kind with
        | handler => exact absurd rfl other
        | body => rfl
        | final => rfl
      · rfl
    rw [step, ih, kept]

theorem handlers_recordTry (r : Regions) {t : TryConstruct} (ordered : t.LaidOut) :
    (r.recordTry t).handlers = (t.intervals .handler).reverse ++ r.handlers := by
  have nonempty : ∀ i ∈ t.intervals .handler, i.low < i.high := fun i member =>
    lt_of_mem_consecutive ordered.handlers_ascending member
  rw [recordTry, handlers_recordAll_of_ne _ (by simp), handlers_recordAll _ nonempty,
    handlers_recordAll_of_ne _ (by simp)]

theorem covers_recordTries {ts : List TryConstruct} (ordered : ∀ t ∈ ts, t.LaidOut) (id : Nat) :
    (ts.foldl recordTry empty).covers id = (ts.foldl recordTry empty).contains .body id := by
  have inside (kind : RegionKind)
      (lies : (ts.foldl recordTry empty).contains kind id = true) :
      (ts.foldl recordTry empty).contains .body id = true := by
    rw [contains_recordTries, contains_empty] at lies ⊢
    obtain ⟨t, member, covers⟩ := lies.resolve_left Bool.false_ne_true
    rw [(ordered t member).covers_iff_extent] at covers
    exact .inr ⟨t, member, (ordered t member).covers_iff_extent.2
      ((ordered t member).extent_body covers)⟩
  rw [Bool.eq_iff_iff, covers_iff]
  constructor
  · intro ⟨kind, lies⟩
    exact inside kind lies
  · intro body
    exact ⟨.body, body⟩

/-- A construct that is laid out in order adds the ordinals from its body up to the following block,
from its first handler up to the final block or else the following one, and from the final block up
to the following one. Its handlers get an interval each, none of them empty and no two of them with
a common ordinal. What is in a region stays there, whatever is recorded, and how often or in which
order constructs are recorded does not matter. -/
theorem recordTry_exact (r : Regions) :
    (∀ t : TryConstruct, t.LaidOut →
      (∀ kind id, (r.recordTry t).contains kind id = true ↔
        r.contains kind id = true ∨ t.Extent kind id) ∧
      ((r.recordTry t).handlers = (t.intervals .handler).reverse ++ r.handlers ∧
        (t.intervals .handler).map Interval.low = t.handlers ∧
        (∀ i ∈ t.intervals .handler, i.low < i.high) ∧
        (t.intervals .handler).Pairwise Interval.Disjoint) ∧
      ∀ id,
        ((empty.recordTry t).contains .handler id = true →
          (empty.recordTry t).contains .final id = false ∧
            (empty.recordTry t).contains .body id = true) ∧
        ((empty.recordTry t).contains .final id = true →
          (empty.recordTry t).contains .body id = true)) ∧
    (∀ (ts : List TryConstruct) kind id, r.contains kind id = true →
      (ts.foldl recordTry r).contains kind id = true) ∧
    (∀ ts us : List TryConstruct, (∀ t, t ∈ ts ↔ t ∈ us) → ∀ kind id,
      (ts.foldl recordTry r).contains kind id = (us.foldl recordTry r).contains kind id) ∧
    ∀ ts : List TryConstruct, (∀ t ∈ ts, t.LaidOut) → ∀ id,
      (ts.foldl recordTry empty).covers id = (ts.foldl recordTry empty).contains .body id := by
  refine ⟨fun t ordered => ⟨fun kind id => ?_, ⟨?_, ?_, ?_, ?_⟩, fun id => ?_⟩,
    fun ts kind id known => ?_, fun ts us same kind id => ?_, fun ts ordered => ?_⟩
  · rw [contains_recordTry_iff, ordered.covers_iff_extent]
  · exact handlers_recordTry r ordered
  · exact map_low_consecutive _ _
  · intro i member
    exact lt_of_mem_consecutive ordered.handlers_ascending member
  · exact ordered.handlers_disjoint
  · simp only [contains_recordTry_empty ordered, ← Bool.not_eq_true]
    exact ⟨fun handled => ⟨handled.not_final, ordered.extent_body handled⟩, ordered.extent_body⟩
  · exact (contains_recordTries r ts kind id).2 (.inl known)
  · rw [Bool.eq_iff_iff, contains_recordTries, contains_recordTries]
    simp only [same]
  · exact covers_recordTries ordered

def outerAndInner : List TryConstruct := [⟨1, [4, 6], some 8, 10⟩, ⟨2, [2], none, 4⟩]

/-- What older constructs have left, one of them not laid out in order. -/
def older : Regions := [⟨7, [9, 3], some 5, 8⟩, ⟨12, [], some 13, 15⟩].foldl recordTry empty

theorem outerAndInner_recorded :
    (∀ t ∈ outerAndInner, t.LaidOut) ∧
      (older.recordTry ⟨1, [4, 6], some 8, 10⟩).handlers = [⟨6, 8⟩, ⟨4, 6⟩, ⟨3, 5⟩] ∧
      (older.recordTry ⟨1, [4, 6], some 8, 10⟩).contains .handler 7 = true ∧
      (older.recordTry ⟨1, [4, 6], some 8, 10⟩).contains .handler 8 = false ∧
      (outerAndInner.foldl recordTry older).contains .final 14 = true ∧
      (outerAndInner.foldl recordTry older).contains .handler 3 =
        ((outerAndInner.reverse ++ outerAndInner).foldl recordTry older).contains .handler 3 ∧
      (outerAndInner.foldl recordTry empty).covers 10 = false := by
  have ordered : ∀ t ∈ outerAndInner, t.LaidOut := by decide
  obtain ⟨one, kept, same, -⟩ := recordTry_exact older
  obtain ⟨-, -, -, all⟩ := recordTry_exact empty
  obtain ⟨adds, ⟨handlers, -⟩, -⟩ := one _ (ordered _ List.mem_cons_self)
  refine ⟨ordered, handlers, (adds .handler 7).2 ?_, ?_, ?_, ?_, ?_⟩
  · exact .inr ⟨4, rfl, by decide, by decide⟩
  · rw [← Bool.not_eq_true, adds]
    rintro (before | ⟨first, -, -, high⟩)
    · exact absurd before (by decide)
    · exact absurd high (by decide)
  · exact kept _ _ _ (by decide)
  · exact same _ _ (by simp) _ _
  · rw [all _ ordered]
    rfl

end Regions

end FlowLint
