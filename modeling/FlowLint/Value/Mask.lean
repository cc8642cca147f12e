/-!
Masks: approximate sets of the types that a value may have. Each of the first 62 bits selects a
slot of the routine's type registry, the last bit says that the value is held by reference, and
the bit between has no meaning.
-/

namespace FlowLint

/-- The number of types that a mask can tell apart. -/
def slotCount : Nat := 62

structure Mask where
  bits : BitVec 64
  deriving DecidableEq

namespace Mask

def void : Mask := ⟨0⟩

/-- All slots: nothing is known about the type. -/
def any : Mask := ⟨(BitVec.allOnes slotCount).setWidth 64⟩

def refBit : BitVec 64 := BitVec.twoPow 64 63

/-- The mask of the given bits without the meaningless one. -/
def ofBits (bits : BitVec 64) : Mask := ⟨bits &&& (any.bits ||| refBit)⟩

/-- The mask of one slot; a type without a slot may be any type. -/
def ofSlot (i : Nat) : Mask := if i < slotCount then ⟨BitVec.twoPow 64 i⟩ else any

def has (m : Mask) (i : Nat) : Bool := decide (i < slotCount) && m.bits.getLsbD i

def slots (m : Mask) : List Nat := (List.range slotCount).filter m.has

def isAny (m : Mask) : Bool := (List.range slotCount).all m.has

def isVoid (m : Mask) : Bool := m.slots.isEmpty

def isRef (m : Mask) : Bool := m.bits.getLsbD 63

/-- Rules about types may rely on the mask: something is known and no other name can change it. -/
def isDecidable (m : Mask) : Bool := !m.isAny && !m.isRef

def isSingle (m : Mask) : Bool := !m.isRef && m.slots.length == 1

def withRef (m : Mask) : Mask := ⟨m.bits ||| refBit⟩

def union (m n : Mask) : Mask := ⟨m.bits ||| n.bits⟩

instance : Union Mask := ⟨union⟩

/-- The bits themselves, unless every slot is selected. -/
def describe (m : Mask) : String :=
  if m.isAny then (if m.isRef then "TypeMask(any, ref)" else "TypeMask(any)")
  else "TypeMask(0x" ++ String.ofList (Nat.toDigits 16 m.bits.toNat) ++ ")"

theorem mem_slots {m : Mask} {i : Nat} : i ∈ m.slots ↔ m.has i = true := by
  simp only [slots, List.mem_filter, List.mem_range, and_iff_right_iff_imp, has, Bool.and_eq_true,
    decide_eq_true_eq]
  exact And.left

@[simp] theorem has_union (m n : Mask) (i : Nat) : (m ∪ n).has i = (m.has i || n.has i) := by
  change (decide _ && (m.bits ||| n.bits).getLsbD i) = _
  simp [has, Bool.and_or_distrib_left]

@[simp] theorem isRef_union (m n : Mask) : (m ∪ n).isRef = (m.isRef || n.isRef) := by
  change (m.bits ||| n.bits).getLsbD 63 = _
  simp [isRef]

theorem isAny_iff {m : Mask} : m.isAny = true ↔ ∀ i < slotCount, m.has i = true := by
  simp [isAny]

end Mask

end FlowLint
