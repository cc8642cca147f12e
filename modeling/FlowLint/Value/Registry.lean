import FlowLint.Value.Basic
import FlowLint.Value.Mask

/-!
The registry of a routine: the types it tells apart, each once, in the order of registration. The
first 62 of them have a slot in a mask.
-/

namespace FlowLint

structure Registry where
  types : List ValueType
  distinct : types.Nodup

namespace Registry

def empty : Registry := ⟨[], List.nodup_nil⟩

def insert (r : Registry) (t : ValueType) : Registry :=
  if known : t ∈ r.types then r
  else ⟨r.types ++ [t], by
    rw [List.nodup_append]
    refine ⟨r.distinct, by simp, ?_⟩
    intro a present b last same
    rw [List.mem_singleton] at last
    subst last same
    exact known present⟩

def insertAll (r : Registry) (ts : List ValueType) : Registry := ts.foldl insert r

def ofList (ts : List ValueType) : Registry := empty.insertAll ts

def size (r : Registry) : Nat := r.types.length

def maskAfterInsert (r : Registry) (t : ValueType) : Mask :=
  .ofSlot ((r.insert t).types.idxOf t)

def register (r : Registry) (t : ValueType) : Registry × Mask := (r.insert t, r.maskAfterInsert t)

def maskOf (r : Registry) (ts : List ValueType) : Registry × Mask :=
  ts.foldl (fun (r, m) t => (r.insert t, m ∪ r.maskAfterInsert t)) (r, .void)

def mask? (r : Registry) (t : ValueType) : Option Mask :=
  ((r.types.idxOf? t).filter (· < slotCount)).map .ofSlot

/-- The types that a mask selects, in the order of their slots; nothing is known of `any`. -/
def concrete (r : Registry) (m : Mask) : List ValueType :=
  if m.isAny then [] else m.slots.filterMap (r.types[·]?)

def single? (r : Registry) (m : Mask) : Option ValueType :=
  if m.isSingle then m.slots.head?.bind (r.types[·]?) else none

def hasString (r : Registry) (m : Mask) : Bool := (r.concrete m).any ValueType.isString

def hasObject (r : Registry) (m : Mask) : Bool := (r.concrete m).any ValueType.isObject

def hasArray (r : Registry) (m : Mask) : Bool := (r.concrete m).any ValueType.isArray

/-- The mask can be relied on, is not void, and no type of it is anything but an object. -/
def onlyObjects (r : Registry) (m : Mask) : Bool :=
  m.isDecidable && !m.isVoid && (r.concrete m).all ValueType.isObject

def maybeCallable (r : Registry) (m : Mask) : Bool :=
  !m.isDecidable || (r.concrete m).any ValueType.maybeCallable

/-- The distinct names of the types in slot order, with a mark for references. -/
def render (r : Registry) (m : Mask) : String :=
  (if m.isRef then "&" else "") ++
  if m.isAny then "mixed"
  else if m.isVoid then "void"
  else "|".intercalate ((r.concrete m).map ValueType.name).eraseDups

end Registry

end FlowLint
