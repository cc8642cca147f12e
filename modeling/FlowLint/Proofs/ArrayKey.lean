import FlowLint.Diagnostic.Finding
import FlowLint.Document.Value
import FlowLint.Proofs.Json.Decoder
import FlowLint.Proofs.Text.Canonical

/-!
Keys of arrays. A text is the same key as an integer exactly if it is the decimal text of it and the
integer has 64 bits. So the text that a key is shown as is the same key, and no two keys are shown
alike.
-/

namespace FlowLint

def IsWord (i : Int) : Prop := minInt ≤ i ∧ i ≤ maxInt

instance (i : Int) : Decidable (IsWord i) := inferInstanceAs (Decidable (_ ∧ _))

theorem isWord_clampInt (i : Int) : IsWord (clampInt i) := by
  constructor
  · exact Int.le_max_left _ _
  · exact Int.max_le.2 ⟨by decide, Int.min_le_left _ _⟩

namespace ArrayKey

variable {s t : String} {i : Int} {k l : ArrayKey}

theorem ofText_toString (word : IsWord i) : ofText (toString i) = int i := by
  rw [ofText, Text.canonicalInt?_eq_some_iff.2 rfl]
  exact if_pos word

theorem ofText_of_not_word (other : ∀ i, IsWord i → s ≠ toString i) : ofText s = text s := by
  unfold ofText
  split
  · rename_i i read
    have spelled : s = toString i := String.toList_inj.1 (Text.canonicalInt?_eq_some_iff.1 read)
    exact if_neg fun word => other i word spelled
  · rfl

theorem ofText_cases (s : String) :
    (∃ i, IsWord i ∧ s = toString i ∧ ofText s = int i) ∨
      (∀ i, IsWord i → s ≠ toString i) ∧ ofText s = text s := by
  by_cases word : ∃ i, IsWord i ∧ s = toString i
  · obtain ⟨i, word, rfl⟩ := word
    exact .inl ⟨i, word, rfl, ofText_toString word⟩
  · have other : ∀ i, IsWord i → s ≠ toString i := fun i small same => word ⟨i, small, same⟩
    exact .inr ⟨other, ofText_of_not_word other⟩

theorem ofText_eq_int_iff : ofText s = int i ↔ IsWord i ∧ s = toString i := by
  constructor
  · intro key
    rcases ofText_cases s with ⟨j, word, spelled, same⟩ | ⟨-, same⟩
    · obtain rfl := int.inj (same.symm.trans key)
      exact ⟨word, spelled⟩
    · cases same.symm.trans key
  · rintro ⟨word, rfl⟩
    exact ofText_toString word

theorem ofText_eq_text_iff : ofText s = text t ↔ t = s ∧ ∀ i, IsWord i → s ≠ toString i := by
  constructor
  · intro key
    rcases ofText_cases s with ⟨j, -, -, same⟩ | ⟨other, same⟩
    · cases same.symm.trans key
    · exact ⟨(text.inj (same.symm.trans key)).symm, other⟩
  · rintro ⟨rfl, other⟩
    exact ofText_of_not_word other

def IsCanonical (k : ArrayKey) : Prop := ofText k.toText = k

theorem isCanonical_int (word : IsWord i) : (int i).IsCanonical := ofText_toString word

theorem isCanonical_ofText (s : String) : (ofText s).IsCanonical := by
  rcases ofText_cases s with ⟨i, word, -, same⟩ | ⟨-, same⟩
  · rw [same]
    exact isCanonical_int word
  · rw [IsCanonical, same]
    exact same

theorem IsCanonical.eq_of_toText_eq (first : k.IsCanonical) (second : l.IsCanonical)
    (same : k.toText = l.toText) : k = l :=
  calc
    k = ofText k.toText := first.symm
    _ = ofText l.toText := by rw [same]
    _ = l := second

end ArrayKey

theorem Finding.message_duplicateKey (key : String) :
    (duplicateKey key).message = "Duplicate array key '" ++ key ++ "'" := rfl

theorem Finding.message_duplicateKey_inj {first second : String} :
    (duplicateKey first).message = (duplicateKey second).message ↔ first = second := by
  rw [message_duplicateKey, message_duplicateKey, String.append_left_inj, String.append_right_inj]

namespace Constant

def Bounded (c : Constant) : Prop := ∀ i, c = .int i → IsWord i

theorem bounded_of_decode {level : Nat} {j : Json} {c : Constant}
    (read : decode level j = some c) : c.Bounded := by
  rintro i rfl
  rcases Json.Decoder.choice_eq_some read with plain | ⟨entry, listed, inner, value, taken⟩
  · simp at plain
  · simp only [List.mem_cons, List.not_mem_nil, or_false] at listed
    rcases listed with rfl | rfl | rfl | rfl
    · obtain ⟨b, -, same⟩ := Json.Decoder.map_eq_some.1 taken
      cases same
    · obtain ⟨j, number, same⟩ := Json.Decoder.map_eq_some.1 taken
      obtain rfl := int.inj same
      have range := Json.Decoder.integer_range number
      exact ⟨range.1, Int.le_of_lt_add_one range.2⟩
    · obtain ⟨d, -, same⟩ := Json.Decoder.map_eq_some.1 taken
      cases same
    · obtain ⟨s, -, same⟩ := Json.Decoder.map_eq_some.1 taken
      cases same

theorem isCanonical_arrayKey {c : Constant} {k : ArrayKey} (bounded : c.Bounded)
    (stored : c.arrayKey = some k) : k.IsCanonical := by
  cases c with
  | null =>
    obtain rfl := Option.some.inj stored
    rfl
  | bool b =>
    obtain rfl := Option.some.inj stored
    cases b <;> exact ArrayKey.isCanonical_int (by decide)
  | int i =>
    obtain rfl := Option.some.inj stored
    exact ArrayKey.isCanonical_int (bounded i rfl)
  | double d =>
    obtain ⟨i, -, rfl⟩ := Option.map_eq_some_iff.1 stored
    exact ArrayKey.isCanonical_int (isWord_clampInt i)
  | text s =>
    obtain rfl := Option.some.inj stored
    exact ArrayKey.isCanonical_ofText s

/-- A text is an integer key exactly if it is the decimal text of the integer and that has 64 bits,
and else it is the key that reads as itself. The text that the key of a constant is shown as has the
same key again, so that the messages about different keys differ. -/
theorem arrayKey_exact :
    (∀ s i, (text s).arrayKey = some (.int i) ↔ IsWord i ∧ s = toString i) ∧
    (∀ s t, (text s).arrayKey = some (.text t) ↔ t = s ∧ ∀ i, IsWord i → s ≠ toString i) ∧
    (∀ (c : Constant) (k : ArrayKey), c.Bounded → c.arrayKey = some k →
      (text k.toText).arrayKey = some k) ∧
    (∀ (c d : Constant) (k l : ArrayKey), c.Bounded → d.Bounded → c.arrayKey = some k →
      d.arrayKey = some l → k ≠ l →
        (Finding.duplicateKey k.toText).message ≠ (Finding.duplicateKey l.toText).message) ∧
    ∀ level j c, decode level j = some c → c.Bounded := by
  refine ⟨fun s i => ?_, fun s t => ?_, fun c k bounded stored => ?_, ?_,
    fun level j c => bounded_of_decode⟩
  · rw [arrayKey, Option.some_inj, ArrayKey.ofText_eq_int_iff]
  · rw [arrayKey, Option.some_inj, ArrayKey.ofText_eq_text_iff]
  · rw [arrayKey, isCanonical_arrayKey bounded stored]
  · intro c d k l first second stored other different same
    rw [Finding.message_duplicateKey_inj] at same
    exact different ((isCanonical_arrayKey first stored).eq_of_toText_eq
      (isCanonical_arrayKey second other) same)

/-- The least integer of 64 bits is the key of its text; the text of the one below it is no
integer. -/
theorem leastInteger_arrayKey :
    (int minInt).Bounded ∧ (text "-9223372036854775808").arrayKey = some (.int minInt) ∧
      (text "-9223372036854775809").Bounded ∧
      (text "-9223372036854775809").arrayKey = some (.text "-9223372036854775809") ∧
      (Finding.duplicateKey (ArrayKey.int minInt).toText).message ≠
        (Finding.duplicateKey (ArrayKey.text "-9223372036854775809").toText).message := by
  obtain ⟨-, -, again, apart, -⟩ := arrayKey_exact
  have least : (int minInt).Bounded := by
    intro i same
    rw [← int.inj same]
    decide
  have below : (text "-9223372036854775809").Bounded := fun i same => by cases same
  have spelled : "-9223372036854775808" = (ArrayKey.int minInt).toText := by decide +kernel
  have own : (text "-9223372036854775809").arrayKey = some (.text "-9223372036854775809") := by
    decide +kernel
  have different : ArrayKey.int minInt ≠ .text "-9223372036854775809" := fun same => by cases same
  refine ⟨least, ?_, below, own, apart _ _ _ _ least below rfl own different⟩
  rw [spelled]
  exact again (int minInt) _ least rfl

example : (["0", "-1", "+1", "01", "-0", "9223372036854775808", ""].map ArrayKey.ofText) =
    [.int 0, .int (-1), .text "+1", .text "01", .text "-0", .text "9223372036854775808",
      .text ""] := by
  decide +kernel

end Constant

end FlowLint
