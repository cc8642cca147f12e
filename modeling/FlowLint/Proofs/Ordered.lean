import Mathlib.Data.List.Nodup

/-!
Lists that strictly ascend. Sorting brings any list without repetitions into that form, and only
its members matter for the outcome.
-/

namespace FlowLint

theorem nodup_eraseDups {α : Type} [BEq α] [LawfulBEq α] (l : List α) : l.eraseDups.Nodup := by
  induction size : l.length using Nat.strongRecOn generalizing l with
  | ind n ih =>
    cases l with
    | nil => exact List.nodup_nil
    | cons a rest =>
      rw [List.eraseDups_cons, List.nodup_cons, List.mem_eraseDups]
      refine ⟨by simp, ih _ ?_ _ rfl⟩
      rw [← size]
      exact Nat.lt_succ_of_le (List.length_filter_le _ rest)

theorem eraseDups_of_nodup {α : Type} [BEq α] [LawfulBEq α] {l : List α} (distinct : l.Nodup) :
    l.eraseDups = l := by
  induction l with
  | nil => rfl
  | cons a rest ih =>
    obtain ⟨fresh, distinct⟩ := List.nodup_cons.1 distinct
    have others : (rest.filter fun b => !b == a) = rest := by
      rw [List.filter_eq_self]
      intro b member
      have different : b ≠ a := fun same => fresh (same ▸ member)
      simp [different]
    rw [List.eraseDups_cons, others, ih distinct]

theorem eraseDups_concat {α : Type} [BEq α] [LawfulBEq α] [DecidableEq α] (l : List α) (a : α) :
    (l ++ [a]).eraseDups = l.eraseDups ++ if a ∈ l then [] else [a] := by
  rw [List.eraseDups_append, List.removeAll]
  by_cases known : a ∈ l <;> simp [known, List.eraseDups_cons]

/-- Of what is made of a list in order, each value stands where it first arises. -/
theorem eraseDups_map_pairwise {α β : Type} [BEq β] [LawfulBEq β] (key : α → Nat) (f : α → β)
    {l : List α} (sorted : l.Pairwise fun a b => key a < key b) :
    (l.map f).eraseDups.Pairwise fun x y =>
      ∃ a ∈ l, f a = x ∧ ∀ b ∈ l, f b = y → key a < key b := by
  induction size : l.length using Nat.strongRecOn generalizing l with
  | ind n ih =>
    cases l with
    | nil => exact .nil
    | cons a rest =>
      obtain ⟨first, sorted⟩ := List.pairwise_cons.1 sorted
      let others := rest.filter fun b => !f b == f a
      have later : (rest.map f).filter (fun y => !y == f a) = others.map f := List.filter_map
      have less : others.length < n := by
        rw [← size]
        exact Nat.lt_succ_of_le (List.length_filter_le _ rest)
      -- a value that stands later does not arise at the head, so that only the others count for it
      have among {y : β} (listed : y ∈ (others.map f).eraseDups) {b : α} (member : b ∈ a :: rest)
          (arises : f b = y) : b ∈ others := by
        obtain ⟨c, other, rfl⟩ := List.mem_map.1 (List.mem_eraseDups.1 listed)
        have different : f b ≠ f a := by
          rw [arises]
          simpa using (List.mem_filter.1 other).2
        rcases List.mem_cons.1 member with rfl | member
        · exact absurd rfl different
        · exact List.mem_filter.2 ⟨member, by simpa using different⟩
      rw [List.map_cons, List.eraseDups_cons, later, List.pairwise_cons]
      refine ⟨fun y listed => ⟨a, List.mem_cons_self, rfl, fun b member arises => ?_⟩, ?_⟩
      · exact first b (List.mem_of_mem_filter (among listed member arises))
      · refine (ih _ less (sorted.filter _) rfl).imp_of_mem ?_
        intro x y _ listed ⟨c, other, arises, before⟩
        refine ⟨c, List.mem_cons_of_mem a (List.mem_of_mem_filter other), arises, ?_⟩
        exact fun b member same => before b (among listed member same) same

theorem flatMap_eq_of_mem {α β : Type} {f : α → List β} {l : List α} {a : α} (distinct : l.Nodup)
    (member : a ∈ l) (others : ∀ b ∈ l, b ≠ a → f b = []) : l.flatMap f = f a := by
  obtain ⟨before, behind, split⟩ := List.append_of_mem member
  subst split
  rw [List.nodup_middle, List.nodup_cons] at distinct
  have nothing : ∀ b ∈ before ++ behind, f b = [] := by
    intro b other
    apply others b (by simp at other ⊢; tauto)
    intro same
    subst same
    exact distinct.1 other
  rw [List.forall_mem_append, ← List.flatMap_eq_nil_iff, ← List.flatMap_eq_nil_iff] at nothing
  rw [List.flatMap_append, List.flatMap_cons, nothing.1, nothing.2, List.nil_append,
    List.append_nil]

theorem mergeSort_sorted {α : Type} (key : α → Nat) (l : List α) :
    (l.mergeSort fun a b => key a ≤ key b).Pairwise fun a b => key a ≤ key b := by
  have ordered : (l.mergeSort fun a b => key a ≤ key b).Pairwise
      fun a b => decide (key a ≤ key b) = true := by
    apply List.pairwise_mergeSort
    · intro a b c first second
      rw [decide_eq_true_eq] at first second ⊢
      exact Nat.le_trans first second
    · intro a b
      rw [Bool.or_eq_true, decide_eq_true_eq, decide_eq_true_eq]
      exact Nat.le_total (key a) (key b)
  exact ordered.imp of_decide_eq_true

theorem mergeSort_pairwise {α : Type} (key : α → Nat) {l : List α}
    (distinct : (l.map key).Nodup) :
    (l.mergeSort fun a b => key a ≤ key b).Pairwise fun a b => key a < key b := by
  have different : (l.mergeSort fun a b => key a ≤ key b).Pairwise fun a b => key a ≠ key b := by
    rw [← List.pairwise_map]
    exact ((List.mergeSort_perm l _).map key).nodup_iff.2 distinct
  exact (mergeSort_sorted key l).imp₂ (fun _ _ le ne => Nat.lt_of_le_of_ne le ne) different

/-- What was kept before has no influence on what is kept from here on. -/
theorem eraseRepsBy_loop {α : Type} (r : α → α → Bool) (a : α) (l kept : List α) :
    List.eraseRepsBy.loop r a l kept = kept.reverse ++ (a :: l).eraseRepsBy r := by
  induction l generalizing a kept with
  | nil => exact List.reverse_cons
  | cons b l ih =>
    rw [List.eraseRepsBy, List.eraseRepsBy.loop, List.eraseRepsBy.loop]
    cases r a b with
    | true => exact (ih a kept).trans (congrArg _ (ih a []).symm)
    | false =>
      dsimp only
      rw [ih b, ih b, List.reverse_cons, List.append_assoc]
      rfl

theorem eraseReps_cons_cons {α : Type} [BEq α] (a b : α) (l : List α) :
    (a :: b :: l).eraseReps =
      if a == b then (a :: l).eraseReps else a :: (b :: l).eraseReps := by
  rw [List.eraseReps, List.eraseRepsBy, List.eraseRepsBy.loop]
  cases a == b with
  | true => rfl
  | false => exact eraseRepsBy_loop _ b l [a]

theorem mem_eraseReps {α : Type} [BEq α] [LawfulBEq α] {a : α} {l : List α} :
    a ∈ l.eraseReps ↔ a ∈ l := by
  cases l with
  | nil => exact Iff.rfl
  | cons b l =>
    induction l generalizing b with
    | nil => exact Iff.rfl
    | cons c l ih =>
      rw [eraseReps_cons_cons]
      split
      · rename_i same
        obtain rfl := eq_of_beq same
        rw [ih b, List.mem_cons, List.mem_cons, List.mem_cons, or_self_left]
      · rw [List.mem_cons, ih c, ← List.mem_cons]

theorem eraseReps_pairwise {l : List Nat} (sorted : l.Pairwise (· ≤ ·)) :
    l.eraseReps.Pairwise (· < ·) := by
  cases l with
  | nil => exact .nil
  | cons a l =>
    induction l generalizing a with
    | nil => exact List.pairwise_singleton _ a
    | cons b l ih =>
      obtain ⟨least, rest⟩ := List.pairwise_cons.1 sorted
      rw [eraseReps_cons_cons]
      split
      · rename_i same
        obtain rfl := eq_of_beq same
        exact ih a rest
      · rename_i different
        refine List.pairwise_cons.2 ⟨fun c kept => ?_, ih b rest⟩
        have less : a < b :=
          Nat.lt_of_le_of_ne (least b List.mem_cons_self) fun same => different (beq_of_eq same)
        rcases List.mem_cons.1 (mem_eraseReps.1 kept) with rfl | behind
        · exact less
        · exact Nat.lt_of_lt_of_le less ((List.pairwise_cons.1 rest).1 c behind)

theorem eq_of_pairwise_lt {l m : List Nat} (first : l.Pairwise (· < ·))
    (second : m.Pairwise (· < ·)) (same : ∀ id, id ∈ l ↔ id ∈ m) : l = m := by
  have perm : l.Perm m := by
    rw [List.perm_ext_iff_of_nodup (first.imp Nat.ne_of_lt) (second.imp Nat.ne_of_lt)]
    exact same
  exact perm.eq_of_pairwise (fun a b _ _ less more => absurd less (Nat.lt_asymm more)) first second

/-- Two listings of the same entries, of which the first strictly ascends and the other ascends. -/
theorem eq_of_perm_of_pairwise {α : Type} (key : α → Nat) {l m : List α} (perm : m.Perm l)
    (strict : l.Pairwise fun a b => key a < key b) (weak : m.Pairwise fun a b => key a ≤ key b) :
    m = l := by
  have distinct : (l.map key).Nodup := List.pairwise_map.2 (strict.imp Nat.ne_of_lt)
  refine perm.eq_of_pairwise ?_ weak (strict.imp Nat.le_of_lt)
  intro a b first second le ge
  exact List.inj_on_of_nodup_map distinct (perm.subset first) second (Nat.le_antisymm le ge)

theorem flatMap_filter_of_nil {α β : Type} {f : α → List β} {p : α → Bool} {l : List α}
    (nothing : ∀ a ∈ l, p a = false → f a = []) : (l.filter p).flatMap f = l.flatMap f := by
  induction l with
  | nil => rfl
  | cons a l ih =>
    obtain ⟨first, rest⟩ := List.forall_mem_cons.1 nothing
    cases kept : p a with
    | true => rw [List.filter_cons_of_pos kept, List.flatMap_cons, List.flatMap_cons, ih rest]
    | false =>
      rw [List.filter_cons_of_neg (by simp [kept]), List.flatMap_cons, first kept,
        List.nil_append, ih rest]

/-- What is made of the members of two lists that strictly ascend is the same if nothing is made of
those that only one of them has. -/
theorem flatMap_eq_of_pairwise_lt {β : Type} {f : Nat → List β} {l m : List Nat}
    (first : l.Pairwise (· < ·)) (second : m.Pairwise (· < ·)) (left : ∀ id, id ∉ l → f id = [])
    (right : ∀ id, id ∉ m → f id = []) : l.flatMap f = m.flatMap f := by
  have common : l.filter (· ∈ m) = m.filter (· ∈ l) := by
    refine eq_of_pairwise_lt (first.filter _) (second.filter _) fun id => ?_
    simp only [List.mem_filter, decide_eq_true_eq]
    exact and_comm
  calc
    l.flatMap f = (l.filter (· ∈ m)).flatMap f :=
      (flatMap_filter_of_nil fun id _ absent => right id (of_decide_eq_false absent)).symm
    _ = (m.filter (· ∈ l)).flatMap f := by rw [common]
    _ = m.flatMap f := flatMap_filter_of_nil fun id _ absent => left id (of_decide_eq_false absent)

end FlowLint
