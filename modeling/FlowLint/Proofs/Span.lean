import FlowLint.Span
import Mathlib.Order.Bounds.Image

/-!
Ranges around spans. The join of a list of spans is the smallest range that covers them all; it runs
from the least start to the greatest end.
-/

namespace FlowLint

namespace Span

def IsForward (s : Span) : Prop := s.start ≤ s.stop

def Covers (outer s : Span) : Prop := outer.start ≤ s.start ∧ s.stop ≤ outer.stop

/-- The smallest range that covers all of the spans. -/
structure IsHull (spans : Span → Prop) (hull : Span) : Prop where
  covers : ∀ s, spans s → hull.Covers s
  least : ∀ outer : Span, (∀ s, spans s → outer.Covers s) → outer.Covers hull

variable {outer s t : Span}

theorem Covers.refl (s : Span) : s.Covers s := ⟨Nat.le_refl _, Nat.le_refl _⟩

theorem Covers.trans (first : outer.Covers s) (second : s.Covers t) : outer.Covers t :=
  ⟨Nat.le_trans first.1 second.1, Nat.le_trans second.2 first.2⟩

theorem covers_join_iff : outer.Covers (s.join t) ↔ outer.Covers s ∧ outer.Covers t := by
  simp only [Covers, join, Nat.le_min, Nat.max_le]
  constructor
  · rintro ⟨⟨first, second⟩, third, fourth⟩
    exact ⟨⟨first, third⟩, second, fourth⟩
  · rintro ⟨⟨first, third⟩, second, fourth⟩
    exact ⟨⟨first, second⟩, third, fourth⟩

theorem covers_foldl_join_iff {rest : List Span} :
    outer.Covers (rest.foldl join s) ↔ outer.Covers s ∧ ∀ t ∈ rest, outer.Covers t := by
  induction rest generalizing s with
  | nil => simp
  | cons t rest ih => rw [List.foldl_cons, ih, covers_join_iff, List.forall_mem_cons, and_assoc]

/-- The join of a list is the smallest range around its spans. -/
theorem isHull_of_joinAll {spans : List Span} {hull : Span} (joined : joinAll spans = some hull) :
    IsHull (· ∈ spans) hull := by
  cases spans with
  | nil => cases joined
  | cons s rest =>
    obtain rfl := Option.some.inj joined
    constructor
    · exact List.forall_mem_cons.2 (covers_foldl_join_iff.1 (Covers.refl _))
    · intro outer covers
      exact covers_foldl_join_iff.2 (List.forall_mem_cons.1 covers)

theorem IsHull.nonempty {spans : Span → Prop} {hull : Span} (isHull : IsHull spans hull) :
    ∃ s, spans s := by
  by_contra none
  have narrow := isHull.least ⟨hull.start + 1, hull.stop⟩ fun s inside => absurd ⟨s, inside⟩ none
  exact Nat.not_succ_le_self hull.start narrow.1

theorem take_covers (s : Span) (n : Nat) : s.Covers (s.take n) :=
  ⟨Nat.le_refl _, Nat.min_le_right _ _⟩

theorem IsForward.take (forward : s.IsForward) (n : Nat) : (s.take n).IsForward :=
  Nat.le_min.2 ⟨Nat.le_add_right _ _, forward⟩

theorem length_take (s : Span) (n : Nat) : (s.take n).length = min n s.length := by
  simp only [length, Span.take]
  omega

theorem Covers.isForward (covers : outer.Covers s) (forward : s.IsForward) : outer.IsForward :=
  Nat.le_trans covers.1 (Nat.le_trans forward covers.2)

/-- From the least start of the spans to the greatest end. -/
def Bounds (spans : Set Span) (s : Span) : Prop :=
  IsLeast (start '' spans) s.start ∧ IsGreatest (stop '' spans) s.stop

variable {spans : Set Span} {hull : Span}

theorem Bounds.unique {s t : Span} (first : Bounds spans s) (second : Bounds spans t) : s = t := by
  have starts : s.start = t.start := first.1.unique second.1
  have stops : s.stop = t.stop := first.2.unique second.2
  cases s
  cases t
  exact congrArg₂ Span.mk starts stops

theorem IsHull.isLeast (isHull : IsHull (· ∈ spans) hull) :
    IsLeast (start '' spans) hull.start := by
  refine ⟨?_, Set.forall_mem_image.2 fun t inside => (isHull.covers t inside).1⟩
  by_contra unattained
  -- if no span started there, the range could start one later
  have narrow : Covers ⟨hull.start + 1, hull.stop⟩ hull := by
    apply isHull.least
    intro t inside
    obtain ⟨less, within⟩ := isHull.covers t inside
    exact ⟨Nat.lt_of_le_of_ne less fun same => unattained ⟨t, inside, same.symm⟩, within⟩
  exact Nat.not_succ_le_self hull.start narrow.1

theorem IsHull.isGreatest (isHull : IsHull (· ∈ spans) hull) :
    IsGreatest (stop '' spans) hull.stop := by
  refine ⟨?_, Set.forall_mem_image.2 fun t inside => (isHull.covers t inside).2⟩
  by_contra unattained
  have earlier (t : Span) (inside : t ∈ spans) : t.stop < hull.stop :=
    Nat.lt_of_le_of_ne (isHull.covers t inside).2 fun same => unattained ⟨t, inside, same⟩
  have narrow : Covers ⟨hull.start, hull.stop - 1⟩ hull := by
    apply isHull.least
    intro t inside
    exact ⟨(isHull.covers t inside).1, Nat.le_sub_one_of_lt (earlier t inside)⟩
  obtain ⟨t, inside⟩ := isHull.nonempty
  have positive : 0 < hull.stop := Nat.zero_lt_of_lt (earlier t inside)
  exact Nat.not_le_of_lt (Nat.sub_one_lt_of_lt positive) narrow.2

theorem bounds_of_joinAll {list : List Span} (joined : joinAll list = some hull) :
    Bounds {t | t ∈ list} hull :=
  have isHull : IsHull (· ∈ {t | t ∈ list}) hull := isHull_of_joinAll joined
  ⟨isHull.isLeast, isHull.isGreatest⟩

theorem exists_joinAll_iff {list : List Span} :
    (∃ hull, joinAll list = some hull) ↔ ∃ t, t ∈ list := by
  cases list with
  | nil => simp [joinAll]
  | cons t rest => exact ⟨fun _ => ⟨t, List.mem_cons_self⟩, fun _ => ⟨_, rfl⟩⟩

theorem joinAll_eq_some_iff {list : List Span} :
    joinAll list = some hull ↔ Bounds {t | t ∈ list} hull := by
  constructor
  · exact bounds_of_joinAll
  · intro bounds
    obtain ⟨t, inside, -⟩ := bounds.1.1
    obtain ⟨other, joined⟩ := exists_joinAll_iff.2 ⟨t, inside⟩
    rw [joined, (bounds_of_joinAll joined).unique bounds]

theorem joinAll_congr {first second : List Span} (same : ∀ t, t ∈ first ↔ t ∈ second) :
    joinAll first = joinAll second := by
  apply Option.ext
  intro hull
  rw [joinAll_eq_some_iff, joinAll_eq_some_iff]
  simp only [same]

end Span

end FlowLint
