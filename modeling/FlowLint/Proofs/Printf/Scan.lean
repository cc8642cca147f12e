import FlowLint.Proofs.Printf.Grammar

/-!
The scan of a format from left to right. Where a directive stands the scan takes it and goes on
behind it; everywhere else it goes on one character later. At no index is there a choice.
-/

namespace FlowLint.Printf

/-- What stands in the text from one index up to another is this directive. -/
def Reads (cs : List Char) (i j : Nat) (d : Directive) : Prop :=
  j ≤ cs.length ∧ ∃ a : Spelling, a.directive = d ∧ cs.extract i j = a.text

/-- From this index on, the scan finds these directives. -/
inductive Scan (cs : List Char) : Nat → List Directive → Prop where
  | finish : Scan cs cs.length []
  | take {i j : Nat} {d : Directive} {ds : List Directive} :
      Reads cs i j d → Scan cs j ds → Scan cs i (d :: ds)
  | skip {i : Nat} {ds : List Directive} :
      i < cs.length → (∀ j d, ¬ Reads cs i j d) → Scan cs (i + 1) ds → Scan cs i ds

variable {cs : List Char}

theorem Reads.lt {i j : Nat} {d : Directive} (reads : Reads cs i j d) : i < j := by
  obtain ⟨-, a, -, stands⟩ := reads
  obtain ⟨tail, text⟩ := a.text_eq_cons
  apply Nat.lt_of_not_le
  intro behind
  rw [List.extract_eq_take_drop, Nat.sub_eq_zero_of_le behind, List.take_zero, text] at stands
  exact absurd stands (List.cons_ne_nil _ _).symm

theorem Reads.drop_eq {i j : Nat} {d : Directive} (reads : Reads cs i j d) :
    ∃ a : Spelling, a.directive = d ∧ cs.drop i = a.text ++ cs.drop j := by
  have before := Nat.le_of_lt reads.lt
  obtain ⟨-, a, same, stands⟩ := reads
  refine ⟨a, same, ?_⟩
  calc
    cs.drop i = (cs.drop i).take (j - i) ++ (cs.drop i).drop (j - i) :=
      (List.take_append_drop _ _).symm
    _ = a.text ++ cs.drop j := by
      rw [← stands, List.extract_eq_take_drop, List.drop_drop, Nat.add_sub_cancel' before]

theorem reads_of_drop_eq {i : Nat} {a : Spelling} {rest : List Char}
    (stands : cs.drop i = a.text ++ rest) :
    Reads cs i (i + a.text.length) a.directive ∧ cs.drop (i + a.text.length) = rest := by
  have remaining : cs.drop (i + a.text.length) = rest := by
    rw [← List.drop_drop, stands, List.drop_left]
  refine ⟨⟨?_, a, rfl, ?_⟩, remaining⟩
  · obtain ⟨tail, text⟩ := a.text_eq_cons
    have length := congrArg List.length stands
    rw [List.length_drop, List.length_append, text, List.length_cons] at length
    rw [text, List.length_cons]
    omega
  · rw [List.extract_eq_take_drop, Nat.add_sub_cancel_left, stands, List.take_left]

theorem reads_iff {i j : Nat} {d : Directive} :
    Reads cs i j d ↔
      j ≤ cs.length ∧ ∃ tail, cs.drop i = '%' :: tail ∧ directive? tail = some (d, cs.drop j) := by
  constructor
  · intro reads
    obtain ⟨a, same, stands⟩ := reads.drop_eq
    obtain ⟨tail, text⟩ := a.text_eq_cons
    refine ⟨reads.1, tail ++ cs.drop j, by rw [stands, text, List.cons_append], ?_⟩
    exact directive?_eq_some_iff.2 ⟨a, same, by rw [text, List.cons_append]⟩
  · rintro ⟨inside, tail, percent, found⟩
    obtain ⟨a, rfl, spelled⟩ := directive?_eq_some_iff.1 found
    obtain ⟨reads, remaining⟩ := reads_of_drop_eq (percent.trans spelled)
    have stop : i + a.text.length = j := by
      have length := congrArg List.length remaining
      rw [List.length_drop, List.length_drop] at length
      have := reads.1
      omega
    rwa [stop] at reads

/-- At an index, at most one directive stands, and it has one end. -/
theorem Reads.unique {i j k : Nat} {d e : Directive} (first : Reads cs i j d)
    (second : Reads cs i k e) : j = k ∧ d = e := by
  obtain ⟨inside, tail, percent, found⟩ := reads_iff.1 first
  obtain ⟨alsoInside, other, alsoPercent, alsoFound⟩ := reads_iff.1 second
  obtain rfl := (List.cons.inj (percent.symm.trans alsoPercent)).2
  obtain ⟨rfl, remaining⟩ := Prod.mk.inj (Option.some.inj (found.symm.trans alsoFound))
  have length := congrArg List.length remaining
  rw [List.length_drop, List.length_drop] at length
  exact ⟨by omega, rfl⟩

theorem exists_reads {i : Nat} {d : Directive} {tail rest : List Char}
    (percent : cs.drop i = '%' :: tail) (found : directive? tail = some (d, rest)) :
    ∃ j, Reads cs i j d ∧ cs.drop j = rest := by
  obtain ⟨a, rfl, spelled⟩ := directive?_eq_some_iff.1 found
  exact ⟨_, reads_of_drop_eq (percent.trans spelled)⟩

theorem directives_of_found {tail rest : List Char} {d : Directive}
    (found : directive? tail = some (d, rest)) :
    directives ('%' :: tail) = d :: directives rest := by
  rw [directives, if_pos rfl]
  split
  · rename_i other remaining alsoFound
    obtain ⟨rfl, rfl⟩ := Prod.mk.inj (Option.some.inj (found.symm.trans alsoFound))
    rfl
  · rename_i none
    exact absurd (found.symm.trans none) (by simp)

theorem directives_of_none {tail : List Char} (none : directive? tail = none) :
    directives ('%' :: tail) = directives tail := by
  rw [directives, if_pos rfl]
  split
  · rename_i found
    exact absurd (none.symm.trans found) (by simp)
  · rfl

theorem directives_of_ne {c : Char} {tail : List Char} (other : c ≠ '%') :
    directives (c :: tail) = directives tail := by
  rw [directives, if_neg other]

theorem directives_drop_of_reads {i j : Nat} {d : Directive} (reads : Reads cs i j d) :
    directives (cs.drop i) = d :: directives (cs.drop j) := by
  obtain ⟨-, tail, percent, found⟩ := reads_iff.1 reads
  rw [percent, directives_of_found found]

theorem directives_drop_of_silent {i : Nat} (inside : i < cs.length)
    (silent : ∀ j d, ¬ Reads cs i j d) : directives (cs.drop i) = directives (cs.drop (i + 1)) := by
  rw [List.drop_eq_getElem_cons inside]
  by_cases percent : cs[i] = '%'
  · rw [percent]
    apply directives_of_none
    rw [Option.eq_none_iff_forall_ne_some]
    rintro ⟨d, rest⟩ found
    have stands := List.drop_eq_getElem_cons inside
    rw [percent] at stands
    obtain ⟨j, reads, -⟩ := exists_reads stands found
    exact silent j d reads
  · exact directives_of_ne percent

theorem Scan.eq_directives {i : Nat} {ds : List Directive} (scan : Scan cs i ds) :
    ds = directives (cs.drop i) := by
  induction scan with
  | finish => rw [List.drop_length, directives]
  | take reads _ ih => rw [directives_drop_of_reads reads, ih]
  | skip inside silent _ ih => rw [directives_drop_of_silent inside silent, ih]

theorem scan_directives {i : Nat} (inside : i ≤ cs.length) :
    Scan cs i (directives (cs.drop i)) := by
  induction left : cs.length - i using Nat.strongRecOn generalizing i with
  | ind size ih =>
    by_cases last : i = cs.length
    · subst last
      rw [List.drop_length, directives]
      exact .finish
    · by_cases silent : ∀ j d, ¬ Reads cs i j d
      · rw [directives_drop_of_silent (by omega) silent]
        exact .skip (by omega) silent (ih (cs.length - (i + 1)) (by omega) (by omega) rfl)
      · obtain ⟨j, d, reads⟩ : ∃ j d, Reads cs i j d := by simpa using silent
        rw [directives_drop_of_reads reads]
        have further : i < j := reads.lt
        exact .take reads (ih (cs.length - j) (by omega) reads.1 rfl)

/-- The scan comes to an end, and finds what the directives are. -/
theorem scan_iff {ds : List Directive} : Scan cs 0 ds ↔ ds = directives cs := by
  constructor
  · exact Scan.eq_directives
  · rintro rfl
    exact scan_directives (Nat.zero_le _)

end FlowLint.Printf
