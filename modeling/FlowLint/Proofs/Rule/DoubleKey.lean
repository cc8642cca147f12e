import FlowLint.Proofs.ArrayKey
import FlowLint.Proofs.Double.Value
import FlowLint.Proofs.Rule.ArrayLiteral
import Mathlib.Tactic.NormNum

/-!
Doubles as keys of arrays. They are truncated, and what then has more than 64 bits is moved to the
nearer end of the range. So all doubles beyond one end are taken for the same key, and an array
literal is told that it repeats a key although the truncated numbers differ.
-/

namespace FlowLint

variable {p q : ℚ}

/-- The integers are the same, or both are at or beyond the same end of the range of 64 bits. -/
def SameWord (i j : Int) : Prop := i = j ∨ maxInt ≤ i ∧ maxInt ≤ j ∨ i ≤ minInt ∧ j ≤ minInt

theorem clampInt_of_isWord {i : Int} (word : IsWord i) : clampInt i = i := by
  rw [clampInt, Int.min_eq_right word.2, Int.max_eq_right word.1]

theorem clampInt_of_maxInt_le {i : Int} (beyond : maxInt ≤ i) : clampInt i = maxInt := by
  rw [clampInt, Int.min_eq_left beyond]
  decide

theorem clampInt_of_le_minInt {i : Int} (beyond : i ≤ minInt) : clampInt i = minInt := by
  have less : i ≤ maxInt := Int.le_trans beyond (by decide)
  rw [clampInt, Int.min_eq_right less, Int.max_eq_left beyond]

/-- Every integer is at or beyond an end of the range, or keeps its value. -/
theorem clampInt_cases (i : Int) :
    maxInt ≤ i ∧ clampInt i = maxInt ∨ i ≤ minInt ∧ clampInt i = minInt ∨
      (minInt < i ∧ i < maxInt) ∧ clampInt i = i := by
  rcases lt_or_ge i maxInt with less | beyond
  · rcases lt_or_ge minInt i with more | below
    · exact .inr (.inr ⟨⟨more, less⟩, clampInt_of_isWord ⟨Int.le_of_lt more, Int.le_of_lt less⟩⟩)
    · exact .inr (.inl ⟨below, clampInt_of_le_minInt below⟩)
  · exact .inl ⟨beyond, clampInt_of_maxInt_le beyond⟩

theorem clampInt_eq_clampInt_iff {i j : Int} : clampInt i = clampInt j ↔ SameWord i j := by
  constructor
  · intro same
    have ends : minInt < maxInt := by decide
    unfold SameWord
    rcases clampInt_cases i with ⟨_, first⟩ | ⟨_, first⟩ | ⟨_, first⟩ <;>
    rcases clampInt_cases j with ⟨_, second⟩ | ⟨_, second⟩ | ⟨_, second⟩ <;>
    · rw [first, second] at same
      omega
  · rintro (rfl | ⟨first, second⟩ | ⟨first, second⟩)
    · rfl
    · rw [clampInt_of_maxInt_le first, clampInt_of_maxInt_le second]
    · rw [clampInt_of_le_minInt first, clampInt_of_le_minInt second]

theorem Constant.arrayKey_double {x : Double} (stands : x.value? = some p) :
    (double x).arrayKey = some (.int (clampInt (towardZero p))) := by
  rw [arrayKey, x.truncate_eq, stands]
  rfl

theorem Constant.arrayKey_double_eq_iff {x y : Double} (first : x.value? = some p)
    (second : y.value? = some q) :
    (double x).arrayKey = (double y).arrayKey ↔ SameWord (towardZero p) (towardZero q) := by
  rw [arrayKey_double first, arrayKey_double second, Option.some_inj, ArrayKey.int.injEq,
    clampInt_eq_clampInt_iff]

def ArrayItem.HasDouble (item : ArrayItem Expr) (q : ℚ) : Prop :=
  ∃ key x, item.key = some key ∧ key.constant = some (.double x) ∧ x.value? = some q

namespace ArrayItem.HasDouble

variable {first second : ArrayItem Expr}

theorem storedKey? (keyed : first.HasDouble p) :
    first.storedKey? = some (.int (clampInt (towardZero p))) := by
  obtain ⟨key, x, present, constant, stands⟩ := keyed
  rw [ArrayItem.storedKey?, present, Option.bind_some, constant, Option.bind_some,
    Constant.arrayKey_double stands]

theorem storedKey?_eq_iff (left : first.HasDouble p) (right : second.HasDouble q) :
    first.storedKey? = second.storedKey? ↔ SameWord (towardZero p) (towardZero q) := by
  rw [left.storedKey?, right.storedKey?, Option.some_inj, ArrayKey.int.injEq,
    clampInt_eq_clampInt_iff]

end ArrayItem.HasDouble

namespace Context

variable (c : Context)

theorem exists_isRepeat_double_iff {before : List (ArrayItem Expr)} {item : ArrayItem Expr}
    (keyed : item.HasDouble q) :
    (∃ r ∈ c.ofItem before item, isRepeat r = true) ↔
      (∃ earlier ∈ before, ∃ p, earlier.HasDouble p ∧ SameWord (towardZero p) (towardZero q)) ∨
        ∃ earlier ∈ before, (∀ p, ¬ earlier.HasDouble p) ∧
          earlier.storedKey? = item.storedKey? := by
  rw [exists_isRepeat_iff]
  constructor
  · rintro ⟨k, own, earlier, member, same⟩
    have alike : earlier.storedKey? = item.storedKey? := same.trans own.symm
    by_cases double : ∃ p, earlier.HasDouble p
    · obtain ⟨p, other⟩ := double
      exact .inl ⟨earlier, member, p, other, (other.storedKey?_eq_iff keyed).1 alike⟩
    · exact .inr ⟨earlier, member, not_exists.1 double, alike⟩
  · rintro (⟨earlier, member, p, other, near⟩ | ⟨earlier, member, -, alike⟩)
    · have alike := (other.storedKey?_eq_iff keyed).2 near
      exact ⟨_, keyed.storedKey?, earlier, member, alike.trans keyed.storedKey?⟩
    · exact ⟨_, keyed.storedKey?, earlier, member, alike.trans keyed.storedKey?⟩

/-- Two finite doubles are the same key exactly if their truncated numbers are the same integer, or
both are at or beyond the same end of the range of 64 bits. So an item whose key is a double is said
to repeat the key of an item before it, if that is a double as well, in just these cases; the other
keys it can repeat are no doubles. -/
theorem doubleKey_exact (regions : Regions) {e : Expr} {list : List (ArrayItem Expr)}
    (form : e.form = .array list) :
    (∀ x y p q, x.value? = some p → y.value? = some q →
      ((Constant.double x).arrayKey = (Constant.double y).arrayKey ↔
        SameWord (towardZero p) (towardZero q))) ∧
    c.own regions e =
        remarkIf e.access.isNone e.span .valueNotRead ++
          list.zipIdx.flatMap (fun (item, i) => c.ofItem (list.take i) item) ∧
    ∀ i item q, list[i]? = some item → item.HasDouble q →
      ((∃ r ∈ c.ofItem (list.take i) item, isRepeat r = true) ↔
        (∃ earlier ∈ list.take i, ∃ p, earlier.HasDouble p ∧
          SameWord (towardZero p) (towardZero q)) ∨
        ∃ earlier ∈ list.take i, (∀ p, ¬ earlier.HasDouble p) ∧
          earlier.storedKey? = item.storedKey?) := by
  refine ⟨fun x y p q => Constant.arrayKey_double_eq_iff, ?_,
    fun i item q _ keyed => c.exists_isRepeat_double_iff keyed⟩
  rw [own_array c regions form, arrayLiteral, items_nil_eq]

/-- `10 ^ 19`, which has more than 64 bits. -/
def far : Double := .finite false ⟨4882812500000000, 11, by decide⟩

def farther : Double := .finite false ⟨4882812500000000, 12, by decide⟩

theorem far_value : far.value? = some 10000000000000000000 := by
  rw [far, Double.value?, Double.Magnitude.value]
  norm_num

theorem farther_value : farther.value? = some 20000000000000000000 := by
  rw [farther, Double.value?, Double.Magnitude.value]
  norm_num

def keyedBy (d : Double) : ArrayItem Expr :=
  let whole (form : Form Expr) (constant : Option Constant) : Expr :=
    ⟨form, some ⟨6, 10⟩, .any, ⟨true, false, false, false⟩, constant, none⟩
  ⟨some (whole (.literal (.double d)) (some (.double d))), whole (.literal .null) none⟩

theorem keyedBy_hasDouble {d : Double} (stands : d.value? = some q) : (keyedBy d).HasDouble q :=
  ⟨_, d, rfl, rfl, stands⟩

def distantKeys : Expr :=
  ⟨.array [keyedBy far, keyedBy farther], some ⟨5, 30⟩, .any, ⟨true, false, false, false⟩, none,
    none⟩

theorem far_sameWord_farther :
    SameWord (towardZero 10000000000000000000) (towardZero 20000000000000000000) := by
  refine .inr (.inl ⟨?_, ?_⟩)
  · rw [towardZero_of_nonneg (by norm_num), Int.le_floor]
    norm_num [maxInt]
  · rw [towardZero_of_nonneg (by norm_num), Int.le_floor]
    norm_num [maxInt]

theorem distantKeys_told :
    distantKeys.form = .array [keyedBy far, keyedBy farther] ∧
      far.value? = some 10000000000000000000 ∧ farther.value? = some 20000000000000000000 ∧
      (Constant.double far).arrayKey = (Constant.double farther).arrayKey ∧
      ∃ r ∈ script.own .empty distantKeys, isRepeat r = true := by
  obtain ⟨keys, own, items⟩ := doubleKey_exact script .empty (e := distantKeys) rfl
  have first : (keyedBy far).HasDouble 10000000000000000000 := keyedBy_hasDouble far_value
  obtain ⟨r, told, repeated⟩ :=
    (items 1 (keyedBy farther) _ rfl (keyedBy_hasDouble farther_value)).2
      (.inl ⟨_, List.mem_cons_self, _, first, far_sameWord_farther⟩)
  refine ⟨rfl, far_value, farther_value,
    (keys far farther _ _ far_value farther_value).2 far_sameWord_farther, r, ?_, repeated⟩
  have listed : (keyedBy farther, 1) ∈ [keyedBy far, keyedBy farther].zipIdx :=
    List.mem_cons_of_mem _ List.mem_cons_self
  rw [own]
  exact List.mem_append_right _ (List.mem_flatMap.2 ⟨_, listed, told⟩)

theorem far_towardZero_ne :
    towardZero 10000000000000000000 ≠ towardZero 20000000000000000000 := by
  have exact (n : ℕ) : towardZero n = n := by
    rw [towardZero_of_nonneg (Nat.cast_nonneg n), Int.floor_natCast]
  intro same
  have wrong := (exact 10000000000000000000).symm.trans (same.trans (exact 20000000000000000000))
  exact absurd wrong (by decide)

/-- Doubles are merged, and array literals told of it, although the truncated numbers differ. -/
theorem doubleKey_objected :
    (¬ ∀ x y p q, x.value? = some p → y.value? = some q →
      ((Constant.double x).arrayKey = (Constant.double y).arrayKey ↔
        towardZero p = towardZero q)) ∧
    ¬ ∀ (c : Context) (before : List (ArrayItem Expr)) (item : ArrayItem Expr) (q : ℚ),
      (∀ earlier ∈ before, ∃ p, earlier.HasDouble p) → item.HasDouble q →
        (∃ r ∈ c.ofItem before item, isRepeat r = true) →
          ∃ earlier ∈ before, ∃ p, earlier.HasDouble p ∧ towardZero p = towardZero q := by
  constructor
  · intro apart
    have merged := (Constant.arrayKey_double_eq_iff far_value farther_value).2 far_sameWord_farther
    exact far_towardZero_ne ((apart _ _ _ _ far_value farther_value).1 merged)
  · intro apart
    have first := keyedBy_hasDouble far_value
    have second := keyedBy_hasDouble farther_value
    have told : ∃ r ∈ script.ofItem [keyedBy far] (keyedBy farther), isRepeat r = true :=
      (script.exists_isRepeat_double_iff second).2
        (.inl ⟨_, List.mem_cons_self, _, first, far_sameWord_farther⟩)
    obtain ⟨earlier, member, p, other, same⟩ := apart script [keyedBy far] (keyedBy farther) _
      (fun earlier member => ⟨_, List.mem_singleton.1 member ▸ first⟩) second told
    obtain rfl := List.mem_singleton.1 member
    obtain ⟨key, x, present, constant, stands⟩ := other
    cases present
    cases constant
    obtain rfl := Option.some.inj (far_value.symm.trans stands)
    exact far_towardZero_ne same

end Context

end FlowLint
