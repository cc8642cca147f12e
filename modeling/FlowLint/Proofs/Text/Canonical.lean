import FlowLint.Proofs.Text.Decimal

/-!
Canonical spellings. The one canonical spelling of an integer is the text that it is written as: a
number without leading zeros, and a minus sign in front of it if the integer is less than zero.
-/

namespace FlowLint.Text

theorem digitChar_digitValue {c : Char} (digit : c.isDigit = true) :
    Nat.digitChar (digitValue c) = c := by
  simp only [Char.isDigit, Bool.and_eq_true, decide_eq_true_eq, ge_iff_le,
    UInt32.le_iff_toNat_le] at digit
  have low : 48 ≤ c.toNat := digit.1
  have high : c.toNat ≤ 57 := digit.2
  apply Char.toNat_inj.1
  rw [digitValue, Nat.toNat_digitChar_of_lt_ten (by omega)]
  omega

theorem digitValue_lt {c : Char} (digit : c.isDigit = true) : digitValue c < 10 := by
  have same := digitChar_digitValue digit
  rw [← same, Nat.isDigit_digitChar, decide_eq_true_eq] at digit
  exact digit

/-- Digits that are read behind a positive number are written behind it. -/
theorem toDigits_foldl {cs : List Char} (digits : ∀ c ∈ cs, c.isDigit = true) {n : Nat}
    (positive : 0 < n) :
    Nat.toDigits 10 (cs.foldl (fun n c => 10 * n + digitValue c) n) = Nat.toDigits 10 n ++ cs := by
  induction cs generalizing n with
  | nil => rw [List.foldl_nil, List.append_nil]
  | cons c cs ih =>
    obtain ⟨first, rest⟩ := List.forall_mem_cons.1 digits
    have written : Nat.toDigits 10 (10 * n + digitValue c) = Nat.toDigits 10 n ++ [c] := by
      rw [← Nat.toDigits_append_toDigits (by decide) positive (digitValue_lt first),
        Nat.toDigits_of_lt_base (digitValue_lt first), digitChar_digitValue first]
    calc
      _ = Nat.toDigits 10 (10 * n + digitValue c) ++ cs := ih rest (by omega)
      _ = Nat.toDigits 10 n ++ c :: cs := by rw [written, List.append_assoc, List.singleton_append]

theorem toDigits_ofDigits {c : Char} {cs : List Char} (digits : ∀ d ∈ c :: cs, d.isDigit = true)
    (positive : c ≠ '0') : Nat.toDigits 10 (ofDigits (c :: cs)) = c :: cs := by
  obtain ⟨first, rest⟩ := List.forall_mem_cons.1 digits
  have value : 0 < digitValue c := by
    apply Nat.pos_of_ne_zero
    intro none
    apply positive
    rw [← digitChar_digitValue first, none]
    rfl
  rw [ofDigits, List.foldl_cons, Nat.mul_zero, Nat.zero_add, toDigits_foldl rest value,
    Nat.toDigits_of_lt_base (digitValue_lt first), digitChar_digitValue first,
    List.singleton_append]

theorem canonicalNat?_toDigits (n : Nat) : canonicalNat? (Nat.toDigits 10 n) = some n := by
  by_cases zero : n = 0
  · subst zero
    rfl
  · obtain ⟨c, cs, written, first⟩ := toDigits_eq_cons (Nat.pos_of_ne_zero zero)
    have digits : (Nat.toDigits 10 n).all Char.isDigit = true :=
      List.all_eq_true.2 fun d member => isDigit_of_mem_toDigits member
    have value := ofDigits_toDigits n
    rw [written] at digits value ⊢
    unfold canonicalNat?
    split
    · rename_i same
      exact absurd (List.cons.inj same).1 first
    · rename_i same
      exact absurd (List.cons.inj same).1 first
    · rw [if_pos ⟨List.cons_ne_nil c cs, digits⟩, value]

theorem eq_toDigits_of_canonicalNat? {cs : List Char} {n : Nat}
    (read : canonicalNat? cs = some n) : cs = Nat.toDigits 10 n := by
  unfold canonicalNat? at read
  split at read
  · obtain rfl := Option.some.inj read
    rfl
  · cases read
  · rename_i plain zero
    split at read
    · rename_i canonical
      obtain ⟨some, digits⟩ := canonical
      obtain ⟨c, cs, rfl⟩ := List.exists_cons_of_ne_nil some
      obtain rfl := Option.some.inj read
      have first : c ≠ '0' := fun same => zero cs (same ▸ rfl)
      exact (toDigits_ofDigits (List.all_eq_true.1 digits) first).symm
    · cases read

theorem canonicalNat?_eq_some_iff {cs : List Char} {n : Nat} :
    canonicalNat? cs = some n ↔ cs = Nat.toDigits 10 n :=
  ⟨eq_toDigits_of_canonicalNat?, fun same => same ▸ canonicalNat?_toDigits n⟩

theorem toList_toString_ofNat (n : Nat) : (toString (n : Int)).toList = Nat.toDigits 10 n :=
  Nat.toList_repr

theorem toList_toString_neg {n : Nat} (positive : 0 < n) :
    (toString (-(n : Int))).toList = '-' :: Nat.toDigits 10 n := by
  obtain ⟨m, rfl⟩ := Nat.exists_eq_succ_of_ne_zero (Nat.ne_of_gt positive)
  change ("-" ++ Nat.repr (m + 1)).toList = _
  rw [String.toList_append, Nat.toList_repr]
  rfl

theorem canonicalInt?_minus (cs : List Char) :
    canonicalInt? ('-' :: cs) =
      ((canonicalNat? cs).filter (· ≠ 0)).map fun n : Nat => -(n : Int) := by
  rw [canonicalInt?]
  cases (canonicalNat? cs).filter (· ≠ 0) <;> rfl

theorem canonicalInt?_of_not_minus {cs : List Char} (plain : cs.head? ≠ some '-') :
    canonicalInt? cs = (canonicalNat? cs).map fun n : Nat => (n : Int) := by
  unfold canonicalInt?
  split
  · exact absurd rfl plain
  · cases canonicalNat? cs <;> rfl

theorem canonicalInt?_toString (i : Int) : canonicalInt? (toString i).toList = some i := by
  obtain ⟨n, rfl | rfl⟩ := i.eq_nat_or_neg
  · have plain : (Nat.toDigits 10 n).head? ≠ some '-' := by
      intro first
      exact absurd (isDigit_of_mem_toDigits (List.mem_of_head? first)) (by decide)
    rw [toList_toString_ofNat, canonicalInt?_of_not_minus plain, canonicalNat?_toDigits,
      Option.map_some]
  · by_cases zero : n = 0
    · subst zero
      rfl
    · have nonzero : (some n).filter (· ≠ 0) = some n := by simp [zero]
      rw [toList_toString_neg (Nat.pos_of_ne_zero zero), canonicalInt?_minus,
        canonicalNat?_toDigits, nonzero, Option.map_some]

theorem eq_toString_of_canonicalInt? {cs : List Char} {i : Int} (read : canonicalInt? cs = some i) :
    cs = (toString i).toList := by
  by_cases minus : cs.head? = some '-'
  · obtain ⟨digits, rfl⟩ := List.head?_eq_some_iff.1 minus
    rw [canonicalInt?_minus] at read
    obtain ⟨n, accepted, rfl⟩ := Option.map_eq_some_iff.1 read
    obtain ⟨spelled, nonzero⟩ := Option.filter_eq_some_iff.1 accepted
    have positive : 0 < n := Nat.pos_of_ne_zero (of_decide_eq_true nonzero)
    rw [canonicalNat?_eq_some_iff.1 spelled, toList_toString_neg positive]
  · rw [canonicalInt?_of_not_minus minus] at read
    obtain ⟨n, spelled, rfl⟩ := Option.map_eq_some_iff.1 read
    rw [canonicalNat?_eq_some_iff.1 spelled, toList_toString_ofNat]

theorem canonicalInt?_eq_some_iff {cs : List Char} {i : Int} :
    canonicalInt? cs = some i ↔ cs = (toString i).toList :=
  ⟨eq_toString_of_canonicalInt?, fun same => same ▸ canonicalInt?_toString i⟩

end FlowLint.Text
