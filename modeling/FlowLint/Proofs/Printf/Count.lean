import FlowLint.Proofs.Printf.Scan

/-!
How many arguments a format needs: one for the format, and as many more as it has directives
without a position, or as its greatest position says if that is more.

The count has 64 bits, and there is none if it would need more. A position is read from the digits
`0` to `9`; one that cannot be read counts as the greatest number but one, so that the format itself
can still be added to it. That leaves a gap at the greatest number, which can be read.
-/

namespace FlowLint

namespace Text

/-- The value of a decimal digit of any script. -/
def decimalValue (c : Char) : Nat :=
  ((decimalZeros.find? fun first => first ≤ c.toNat && c.toNat < first + 10).map
    (c.toNat - ·)).getD 0

def ofDecimalDigits (cs : List Char) : Nat := cs.foldl (fun n c => 10 * n + decimalValue c) 0

theorem decimalValue_of_isDigit {c : Char} (ascii : c.isDigit = true) :
    decimalValue c = digitValue c := by
  simp only [Char.isDigit, Bool.and_eq_true, decide_eq_true_eq, ge_iff_le,
    UInt32.le_iff_toNat_le] at ascii
  have low : 48 ≤ c.toNat := ascii.1
  have high : c.toNat ≤ 57 := ascii.2
  have first : (48 ≤ c.toNat && c.toNat < 48 + 10) = true := by
    rw [Bool.and_eq_true, decide_eq_true_eq, decide_eq_true_eq]
    omega
  have found : (decimalZeros.find? fun first => first ≤ c.toNat && c.toNat < first + 10) =
      some 48 := List.find?_cons_of_pos first
  rw [decimalValue, found]
  rfl

theorem ofDecimalDigits_of_isDigit {cs : List Char} (ascii : ∀ c ∈ cs, c.isDigit = true) :
    ofDecimalDigits cs = ofDigits cs := by
  rw [ofDecimalDigits, ofDigits]
  generalize 0 = n
  induction cs generalizing n with
  | nil => rfl
  | cons c cs ih =>
    rw [List.forall_mem_cons] at ascii
    rw [List.foldl_cons, List.foldl_cons, decimalValue_of_isDigit ascii.1, ih ascii.2]

end Text

namespace Printf

def Directive.position? : Directive → Option (List Char)
  | positional digits => some digits
  | _ => none

def positions (ds : List Directive) : List (List Char) := ds.filterMap Directive.position?

def isPlain (digits : List Char) : Bool := digits.all Char.isDigit

def Overflows (digits : List Char) : Prop :=
  isPlain digits = true ∧ Text.ofDecimalDigits digits = countLimit - 1

instance (digits : List Char) : Decidable (Overflows digits) := instDecidableAnd

/-- What a position counts as that leaves room for the format. -/
def saturated (digits : List Char) : Nat :=
  if isPlain digits then min (Text.ofDecimalDigits digits) (countLimit - 2) else countLimit - 2

theorem countLimit_eq : countLimit = 18446744073709551616 := rfl

theorem positionValue_eq (digits : List Char) :
    positionValue digits =
      if isPlain digits ∧ Text.ofDecimalDigits digits < countLimit then
        Text.ofDecimalDigits digits
      else countLimit - 2 := by
  by_cases plain : isPlain digits
  · rw [positionValue, Text.ofDecimalDigits_of_isDigit (List.all_eq_true.1 plain), isPlain]
  · rw [positionValue, if_neg fun both => plain both.1, if_neg fun both => plain both.1]

theorem positionValue_of_overflows {digits : List Char} (overflows : Overflows digits) :
    positionValue digits = countLimit - 1 := by
  obtain ⟨plain, top⟩ := overflows
  have below : countLimit - 1 < countLimit := by decide
  rw [positionValue_eq, if_pos ⟨plain, top ▸ below⟩, top]

theorem positionValue_of_fitting {digits : List Char} (fitting : ¬ Overflows digits) :
    positionValue digits = saturated digits := by
  rw [positionValue_eq, saturated]
  by_cases plain : isPlain digits
  · have other : Text.ofDecimalDigits digits ≠ countLimit - 1 := fun top => fitting ⟨plain, top⟩
    simp only [plain, true_and, if_true, countLimit_eq] at other ⊢
    split <;> omega
  · rw [if_neg plain, if_neg fun both => plain both.1]

theorem saturated_le (digits : List Char) : saturated digits ≤ countLimit - 2 := by
  rw [saturated]
  split
  · exact Nat.min_le_right _ _
  · exact Nat.le_refl _

/-- A position that leaves room for the format never counts as less than it is, as far as that can
be told. -/
theorem min_le_saturated (digits : List Char) :
    min (Text.ofDecimalDigits digits + 1) (countLimit - 1) ≤ 1 + saturated digits := by
  rw [saturated, countLimit_eq]
  split <;> omega

def greatest (ns : List Nat) : Nat := ns.foldr max 0

theorem greatest_le_iff {ns : List Nat} {n : Nat} : greatest ns ≤ n ↔ ∀ m ∈ ns, m ≤ n := by
  induction ns with
  | nil => simp [greatest]
  | cons m ns ih =>
    rw [List.forall_mem_cons, ← ih, greatest, List.foldr_cons, ← greatest]
    exact Nat.max_le

theorem greatest_map_le_iff {α : Type} {f : α → Nat} {l : List α} {n : Nat} :
    greatest (l.map f) ≤ n ↔ ∀ a ∈ l, f a ≤ n := by
  rw [greatest_le_iff, List.forall_mem_map]

theorem le_greatest_map {α : Type} {f : α → Nat} {l : List α} {a : α} (member : a ∈ l) :
    f a ≤ greatest (l.map f) :=
  greatest_map_le_iff.1 (Nat.le_refl _) a member

theorem greatestPosition_eq (ds : List Directive) :
    greatestPosition ds = greatest ((positions ds).map positionValue) := by
  rw [greatestPosition, ← Nat.zero_max (greatest _)]
  generalize 0 = n
  induction ds generalizing n with
  | nil => exact (Nat.max_zero n).symm
  | cons d ds ih =>
    rw [List.foldl_cons, ih]
    cases d with
    | positional digits => exact Nat.max_assoc _ _ _
    | escaped => rfl
    | sequential => rfl

theorem length_directives_le (cs : List Char) : (directives cs).length ≤ cs.length := by
  fun_induction directives cs with
  | case1 => exact Nat.le_refl _
  | case2 cs d rest found ih =>
    have := directive?_no_longer found
    simp only [List.length_cons]
    omega
  | case3 cs none ih => exact Nat.le_succ_of_le ih
  | case4 c cs other ih => exact Nat.le_succ_of_le ih

theorem requiredArguments_eq (format : String) :
    requiredArguments format =
      let sum := 1 + max ((directives format.toList).count .sequential)
        (greatest ((positions (directives format.toList)).map positionValue))
      if sum < countLimit then some sum else none := by
  rw [requiredArguments, sequentialCount, greatestPosition_eq]

/-- A text in memory has fewer than 2⁶³ bytes, and no more characters than bytes. -/
def Addressable (format : String) : Prop := format.length < countLimit / 2

instance (format : String) : Decidable (Addressable format) := Nat.decLt _ _

theorem count_sequential_lt {format : String} (addressable : Addressable format) :
    (directives format.toList).count .sequential < countLimit / 2 := by
  calc
    (directives format.toList).count .sequential ≤ (directives format.toList).length :=
      List.count_le_length
    _ ≤ format.toList.length := length_directives_le format.toList
    _ = format.length := String.length_toList
    _ < countLimit / 2 := addressable

theorem greatest_saturated_le (ds : List Directive) :
    greatest ((positions ds).map saturated) ≤ countLimit - 2 :=
  greatest_map_le_iff.2 fun digits _ => saturated_le digits

theorem requiredArguments_of_fitting {format : String}
    (addressable : Addressable format)
    (fitting : ∀ digits ∈ positions (directives format.toList), ¬ Overflows digits) :
    requiredArguments format =
      some (1 + max ((directives format.toList).count .sequential)
        (greatest ((positions (directives format.toList)).map saturated))) := by
  have values : (positions (directives format.toList)).map positionValue =
      (positions (directives format.toList)).map saturated :=
    List.map_congr_left fun digits member => positionValue_of_fitting (fitting digits member)
  have most := greatest_saturated_le (directives format.toList)
  have few := count_sequential_lt addressable
  rw [requiredArguments_eq, values]
  apply if_pos
  rw [countLimit_eq] at few most ⊢
  omega

theorem requiredArguments_of_overflows {format : String} {digits : List Char}
    (written : digits ∈ positions (directives format.toList)) (overflows : Overflows digits) :
    requiredArguments format = none := by
  have most : countLimit - 1 ≤
      greatest ((positions (directives format.toList)).map positionValue) := by
    rw [← positionValue_of_overflows overflows]
    exact le_greatest_map written
  rw [requiredArguments_eq]
  apply if_neg
  rw [countLimit_eq] at most ⊢
  omega

/-- The number of needed arguments can be counted, and is the sum that it should be, exactly if no
position is the greatest number of 64 bits. It is then positive, and no position that is written
down asks for an argument behind it, as far as that many can be counted. With a position that is
the greatest number the format itself does not fit any more, and there is no count. -/
theorem requiredArguments_exact (format : String) (addressable : Addressable format) :
    (requiredArguments format =
        some (1 + max ((directives format.toList).count .sequential)
          (greatest ((positions (directives format.toList)).map saturated))) ↔
      ∀ digits ∈ positions (directives format.toList), ¬ Overflows digits) ∧
    ((∀ digits ∈ positions (directives format.toList), ¬ Overflows digits) →
      ∃ n, requiredArguments format = some n ∧ 1 ≤ n ∧ n < countLimit ∧
        ∀ digits ∈ positions (directives format.toList),
          min (Text.ofDecimalDigits digits + 1) (countLimit - 1) ≤ n) ∧
    ((∃ digits ∈ positions (directives format.toList), Overflows digits) →
      requiredArguments format = none) := by
  refine ⟨⟨?_, requiredArguments_of_fitting addressable⟩, ?_, ?_⟩
  · intro sum digits written overflows
    rw [requiredArguments_of_overflows written overflows] at sum
    cases sum
  · intro fitting
    have most := greatest_saturated_le (directives format.toList)
    have few := count_sequential_lt addressable
    refine ⟨_, requiredArguments_of_fitting addressable fitting, Nat.le_add_right _ _, ?_, ?_⟩
    · rw [countLimit_eq] at few most ⊢
      omega
    · intro digits written
      calc
        _ ≤ 1 + saturated digits := min_le_saturated digits
        _ ≤ 1 + greatest ((positions (directives format.toList)).map saturated) :=
          Nat.add_le_add_left (le_greatest_map written) 1
        _ ≤ _ := Nat.add_le_add_left (Nat.le_max_right _ _) 1
  · rintro ⟨digits, written, overflows⟩
    exact requiredArguments_of_overflows written overflows

/-- A position beyond 64 bits, and one in digits of another script. -/
def farPositions : String := "%2$s, %18446744073709551616$d and %\u0663$s of %s"

theorem farPositions_required :
    Addressable farPositions ∧
      (∀ digits ∈ positions (directives farPositions.toList), ¬ Overflows digits) ∧
      requiredArguments farPositions =
        some (1 + max ((directives farPositions.toList).count .sequential)
          (greatest ((positions (directives farPositions.toList)).map saturated))) ∧
      ∃ n, requiredArguments farPositions = some n ∧
        ∀ digits ∈ positions (directives farPositions.toList),
          min (Text.ofDecimalDigits digits + 1) (countLimit - 1) ≤ n := by
  have addressable : Addressable farPositions := by decide +kernel
  have fitting : ∀ digits ∈ positions (directives farPositions.toList), ¬ Overflows digits := by
    decide +kernel
  obtain ⟨sum, bounds, -⟩ := requiredArguments_exact farPositions addressable
  obtain ⟨n, counted, -, -, enough⟩ := bounds fitting
  exact ⟨addressable, fitting, sum.2 fitting, n, counted, enough⟩

/-- The greatest position that can be read leaves no room for the format. -/
theorem greatestPosition_uncounted :
    ¬ ∀ format : String, Addressable format →
      ∃ n, requiredArguments format = some n ∧
        n = 1 + max ((directives format.toList).count .sequential)
          (greatest ((positions (directives format.toList)).map saturated)) ∧
        1 ≤ n ∧
        ∀ digits ∈ positions (directives format.toList),
          min (Text.ofDecimalDigits digits + 1) (countLimit - 1) ≤ n := by
  intro counted
  obtain ⟨n, required, -⟩ := counted "%18446744073709551615$s" (by decide +kernel)
  have uncounted : requiredArguments "%18446744073709551615$s" = none := by decide +kernel
  rw [uncounted] at required
  cases required

/-- At each index at most one directive stands, with one end and at most one position. The scan
from left to right that takes them has one outcome, and the number of needed arguments is the sum
that it should be if every position that the scan meets is read: written in the digits `0` to `9`,
and small enough. A small position in digits of another script makes it the greatest number. -/
theorem scan_exact (format : String) (addressable : Addressable format) :
    (∀ i j k d e, Reads format.toList i j d → Reads format.toList i k e → j = k ∧ d = e) ∧
    ∃ ds, Scan format.toList 0 ds ∧ (∀ es, Scan format.toList 0 es → es = ds) ∧
      ((∀ digits ∈ positions ds,
          isPlain digits ∧ Text.ofDecimalDigits digits < countLimit - 1) →
        requiredArguments format =
          some
            (1 + max (ds.count .sequential) (greatest ((positions ds).map Text.ofDecimalDigits)))) ∧
      ((∀ digits ∈ positions ds, Text.ofDecimalDigits digits < countLimit - 1) →
        (∃ digits ∈ positions ds, ¬ isPlain digits) →
        requiredArguments format = some (countLimit - 1)) := by
  refine ⟨fun i j k d e => Reads.unique, directives format.toList, scan_iff.2 rfl,
    fun es => scan_iff.1, ?_, ?_⟩
  · intro read
    have fitting : ∀ digits ∈ positions (directives format.toList), ¬ Overflows digits :=
      fun digits written overflows => Nat.ne_of_lt (read digits written).2 overflows.2
    have values : (positions (directives format.toList)).map saturated =
        (positions (directives format.toList)).map Text.ofDecimalDigits := by
      apply List.map_congr_left
      intro digits written
      obtain ⟨plain, small⟩ := read digits written
      rw [saturated, if_pos plain]
      exact Nat.min_eq_left (Nat.le_pred_of_lt small)
    rw [requiredArguments_of_fitting addressable fitting, values]
  · rintro small ⟨digits, written, foreign⟩
    have fitting : ∀ digits ∈ positions (directives format.toList), ¬ Overflows digits :=
      fun digits written overflows => Nat.ne_of_lt (small digits written) overflows.2
    have most : greatest ((positions (directives format.toList)).map saturated) =
        countLimit - 2 := by
      apply Nat.le_antisymm (greatest_saturated_le _)
      have value : saturated digits = countLimit - 2 := if_neg foreign
      rw [← value]
      exact le_greatest_map written
    have few := count_sequential_lt addressable
    rw [requiredArguments_of_fitting addressable fitting, most, Option.some_inj]
    rw [countLimit_eq] at few ⊢
    omega

/-- A directive with all its parts, padded with percent signs, an escaped percent sign and a minus
that is a sign as well as an alignment. -/
def paddedFormat : String := "%2$+'%-05.2f%%d %-x %q"

theorem paddedFormat_scan :
    Addressable paddedFormat ∧
      (∀ digits ∈ positions [.positional ['2'], .escaped, .sequential],
        isPlain digits ∧ Text.ofDecimalDigits digits < countLimit - 1) ∧
      Scan paddedFormat.toList 0 [.positional ['2'], .escaped, .sequential] ∧
      requiredArguments paddedFormat = some 3 := by
  have addressable : Addressable paddedFormat := by decide +kernel
  have scan : Scan paddedFormat.toList 0 [.positional ['2'], .escaped, .sequential] :=
    scan_iff.2 (by decide +kernel)
  have read : ∀ digits ∈ positions [.positional ['2'], .escaped, .sequential],
      isPlain digits ∧ Text.ofDecimalDigits digits < countLimit - 1 := by decide +kernel
  obtain ⟨-, ds, -, unique, sum, -⟩ := scan_exact paddedFormat addressable
  obtain rfl := unique _ scan
  exact ⟨addressable, read, scan, sum read⟩

theorem foreignPosition_miscounted :
    ¬ ∀ format : String, Addressable format →
      (∀ i j k d e, Reads format.toList i j d → Reads format.toList i k e → j = k ∧ d = e) ∧
      ∃ ds, Scan format.toList 0 ds ∧
        ((∀ digits ∈ positions ds, Text.ofDecimalDigits digits < countLimit - 1) →
          requiredArguments format =
            some (1 + max (ds.count .sequential)
              (greatest ((positions ds).map Text.ofDecimalDigits)))) := by
  intro counted
  obtain ⟨-, ds, scan, sum⟩ := counted "%\u0663$s" (by decide +kernel)
  obtain rfl := scan_iff.1 scan
  exact absurd (sum (by decide +kernel)) (by decide +kernel)

def escapeChar (c : Char) : List Char := if c = '%' then ['%', '%'] else [c]

/-- The text with each percent sign twice. -/
def escape (t : String) : String := String.ofList (t.toList.flatMap escapeChar)

/-- Escaped percent signs pair off from the left, so that none is left for what follows. -/
theorem directives_escape_append (t cs : List Char) :
    directives (t.flatMap escapeChar ++ cs) =
      List.replicate (t.count '%') .escaped ++ directives cs := by
  induction t with
  | nil => rfl
  | cons c t ih =>
    rw [List.flatMap_cons, List.append_assoc]
    by_cases percent : c = '%'
    · subst percent
      rw [List.count_cons_self, List.replicate_succ, List.cons_append, ← ih]
      exact directives_of_found rfl
    · rw [List.count_cons_of_ne percent, ← ih, escapeChar, if_neg percent]
      exact directives_of_ne percent

theorem positions_escaped (n : Nat) (ds : List Directive) :
    positions (List.replicate n .escaped ++ ds) = positions ds := by
  rw [positions, List.filterMap_append, List.filterMap_replicate_of_none rfl, List.nil_append]
  rfl

theorem count_sequential_escaped (n : Nat) (ds : List Directive) :
    (List.replicate n Directive.escaped ++ ds).count .sequential = ds.count .sequential := by
  rw [List.count_append, List.count_replicate, if_neg (by decide), Nat.zero_add]

/-- Escaped text in front of a format takes no argument, and has no influence on those that the
format takes. Alone it is a format that needs nothing else. -/
theorem escape_exact (t f : String) :
    requiredArguments (escape t ++ f) = requiredArguments f ∧
      requiredArguments (escape t) = some 1 := by
  have inert (f : String) : requiredArguments (escape t ++ f) = requiredArguments f := by
    rw [requiredArguments_eq, requiredArguments_eq, escape, String.toList_append,
      String.toList_ofList, directives_escape_append, positions_escaped, count_sequential_escaped]
  refine ⟨inert f, ?_⟩
  have alone := inert ""
  rw [String.append_empty] at alone
  rw [alone]
  decide +kernel

end Printf

end FlowLint
