import FlowLint.Graph.Basic

/-!
The regions of a routine in which exceptions are handled: sets of block ordinals, one for each part
of a `try` construct. Constructs nest, so that a block may lie in several regions.
-/

namespace FlowLint

/-- The ordinals from `low` up to, but not including, `high`. -/
structure Interval where
  low : Nat
  high : Nat
  deriving DecidableEq, Repr

instance : Membership Nat Interval := ⟨fun i id => i.low ≤ id ∧ id < i.high⟩

instance (id : Nat) (i : Interval) : Decidable (id ∈ i) :=
  inferInstanceAs (Decidable (i.low ≤ id ∧ id < i.high))

theorem Interval.mem_iff {id : Nat} {i : Interval} : id ∈ i ↔ i.low ≤ id ∧ id < i.high :=
  Iff.rfl

inductive RegionKind where
  | body
  | handler
  | final
  deriving DecidableEq, Repr

structure Regions where
  bodies : List Interval
  handlers : List Interval
  finals : List Interval
  deriving DecidableEq, Repr

namespace Regions

def empty : Regions := ⟨[], [], []⟩

def intervals (r : Regions) : RegionKind → List Interval
  | .body => r.bodies
  | .handler => r.handlers
  | .final => r.finals

def contains (r : Regions) (kind : RegionKind) (id : Nat) : Bool :=
  (r.intervals kind).any fun i => id ∈ i

def covers (r : Regions) (id : Nat) : Bool :=
  r.contains .body id || r.contains .handler id || r.contains .final id

theorem covers_iff {r : Regions} {id : Nat} :
    r.covers id = true ↔ ∃ kind, r.contains kind id = true := by
  rw [covers, Bool.or_eq_true, Bool.or_eq_true]
  constructor
  · rintro ((body | handler) | final)
    · exact ⟨.body, body⟩
    · exact ⟨.handler, handler⟩
    · exact ⟨.final, final⟩
  · intro ⟨kind, inside⟩
    cases kind with
    | body => exact .inl (.inl inside)
    | handler => exact .inl (.inr inside)
    | final => exact .inr inside

/-- One more interval; an empty one is left out. -/
def record (r : Regions) (kind : RegionKind) (i : Interval) : Regions :=
  if i.low < i.high then
    match kind with
    | .body => { r with bodies := i :: r.bodies }
    | .handler => { r with handlers := i :: r.handlers }
    | .final => { r with finals := i :: r.finals }
  else r

def recordAll (r : Regions) (kind : RegionKind) (is : List Interval) : Regions :=
  is.foldl (·.record kind ·) r

def isEmpty (r : Regions) : Bool := r.bodies.isEmpty && r.handlers.isEmpty && r.finals.isEmpty

end Regions

/-- Each block starts an interval that ends where the next one starts; the last ends at `stop`. -/
def consecutive (stop : Nat) : List Nat → List Interval
  | [] => []
  | [low] => [⟨low, stop⟩]
  | low :: high :: rest => ⟨low, high⟩ :: consecutive stop (high :: rest)

namespace TryConstruct

/-- The intervals of a construct. The body lasts until the block after the whole construct, a
handler until the next handler, the final block or the block after the construct. -/
def intervals (t : TryConstruct) : RegionKind → List Interval
  | .body => [⟨t.body, t.next⟩]
  | .handler => consecutive (t.final.getD t.next) t.handlers
  | .final => t.final.toList.map fun final => ⟨final, t.next⟩

end TryConstruct

def Regions.recordTry (r : Regions) (t : TryConstruct) : Regions :=
  ((r.recordAll .body (t.intervals .body)).recordAll .handler (t.intervals .handler)).recordAll
    .final (t.intervals .final)

namespace Regions

theorem contains_record (r : Regions) (kind : RegionKind) (i : Interval) (k : RegionKind)
    (id : Nat) :
    (r.record kind i).contains k id = true ↔
      r.contains k id = true ∨ (k = kind ∧ id ∈ i) := by
  by_cases nonempty : i.low < i.high
  · cases kind <;> cases k <;> simp [record, nonempty, contains, intervals, or_comm]
  · have absent : id ∉ i := by
      rw [Interval.mem_iff]
      omega
    simp [record, nonempty, absent]

theorem contains_recordAll (r : Regions) (kind : RegionKind) (is : List Interval) (k : RegionKind)
    (id : Nat) :
    (r.recordAll kind is).contains k id = true ↔
      r.contains k id = true ∨ (k = kind ∧ ∃ i ∈ is, id ∈ i) := by
  induction is generalizing r with
  | nil => simp [recordAll]
  | cons i rest ih =>
    have step : r.recordAll kind (i :: rest) = (r.record kind i).recordAll kind rest := rfl
    rw [step, ih, contains_record]
    simp only [List.mem_cons, exists_eq_or_imp]
    grind

theorem contains_recordTry (r : Regions) (t : TryConstruct) (k : RegionKind) (id : Nat) :
    (r.recordTry t).contains k id = true ↔
      r.contains k id = true ∨ ∃ i ∈ t.intervals k, id ∈ i := by
  simp only [recordTry, contains_recordAll]
  cases k <;> simp

end Regions

end FlowLint
