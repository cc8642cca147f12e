import FlowLint.Graph.Basic
import FlowLint.Proofs.Ordered

/-!
Looking up blocks. In a graph whose ordinals ascend, bisection finds the one block that has the
ordinal, wherever it stands in the list.
-/

namespace FlowLint

theorem ascending_iff {l : List Nat} : ascending l = true ↔ l.Pairwise (· < ·) := by
  fun_induction ascending l with
  | case1 a b rest ih =>
    rw [Bool.and_eq_true, decide_eq_true_eq, ih]
    constructor
    · intro ⟨less, tail⟩
      refine List.pairwise_cons.2 ⟨fun c member => ?_, tail⟩
      rcases List.mem_cons.1 member with rfl | later
      · exact less
      · exact Nat.lt_trans less (List.rel_of_pairwise_cons tail later)
    · intro whole
      exact ⟨List.rel_of_pairwise_cons whole List.mem_cons_self, whole.of_cons⟩
  | case2 l short =>
    match l with
    | [] => simp
    | [a] => simp
    | a :: b :: rest => exact absurd rfl (short a b rest)

theorem ascending_iff_adjacent {l : List Nat} :
    ascending l = true ↔ ∀ i a b, l[i]? = some a → l[i + 1]? = some b → a < b := by
  constructor
  · intro ascends i a b here next
    obtain ⟨low, rfl⟩ := List.getElem?_eq_some_iff.1 here
    obtain ⟨high, rfl⟩ := List.getElem?_eq_some_iff.1 next
    exact List.pairwise_iff_getElem.1 (ascending_iff.1 ascends) i (i + 1) low high
      (Nat.lt_succ_self i)
  · intro adjacent
    fun_induction ascending l with
    | case1 a b rest ih =>
      rw [Bool.and_eq_true, decide_eq_true_eq]
      exact ⟨adjacent 0 a b rfl rfl, ih fun i c d here next => adjacent (i + 1) c d here next⟩
    | case2 => rfl

/-- The blocks of a list come in the order of their ordinals, none of which is repeated. -/
def Ascending (blocks : List Block) : Prop :=
  blocks.Pairwise fun a b => a.ordinal < b.ordinal

instance (blocks : List Block) : Decidable (Ascending blocks) :=
  inferInstanceAs (Decidable (blocks.Pairwise _))

theorem Ascending.eq_of_mem_iff {first second : List Block} (ascending : Ascending first)
    (alsoAscending : Ascending second) (same : ∀ b, b ∈ first ↔ b ∈ second) : first = second := by
  have distinct {blocks : List Block} (ascending : Ascending blocks) : blocks.Nodup :=
    ascending.imp fun less same => absurd (congrArg Block.ordinal same) (Nat.ne_of_lt less)
  have perm : first.Perm second := by
    rw [List.perm_ext_iff_of_nodup (distinct ascending) (distinct alsoAscending)]
    exact same
  exact eq_of_perm_of_pairwise Block.ordinal perm alsoAscending (ascending.imp Nat.le_of_lt)

theorem Graph.isSorted_iff {g : Graph} : g.isSorted = true ↔ Ascending g.blocks := by
  rw [isSorted, ascending_iff, List.pairwise_map, Ascending]

/-- A block before the middle of an ascending list has a lesser ordinal than one behind it. -/
theorem Ascending.lt_of_take_of_drop {blocks : List Block} (sorted : Ascending blocks) {n : Nat}
    {a b : Block} (before : a ∈ blocks.take n) (behind : b ∈ blocks.drop n) :
    a.ordinal < b.ordinal := by
  have parts : Ascending (blocks.take n ++ blocks.drop n) := by
    rw [List.take_append_drop]
    exact sorted
  exact (List.pairwise_append.1 parts).2.2 a before b behind

theorem bisect_of_mem {id : Nat} {blocks : List Block} {b : Block} (sorted : Ascending blocks)
    (member : b ∈ blocks) (same : b.ordinal = id) : bisect id blocks = some b := by
  fun_induction bisect id blocks with
  | case1 => simp at member
  | case2 => rw [List.mem_singleton.1 member]
  | case3 c other =>
    rw [List.mem_singleton.1 member] at same
    exact absurd same other
  | case4 c d rest half upper less ih =>
    -- the block does not stand behind the middle, where all ordinals are greater
    apply ih (sorted.sublist (List.take_sublist _ _))
    obtain ⟨middle, first, greater⟩ := (Option.any_eq_true _ _).1 less
    rw [decide_eq_true_eq] at greater
    have before : b ∈ (c :: d :: rest).take half := by
      rw [← List.take_append_drop half (c :: d :: rest), List.mem_append] at member
      refine member.resolve_right fun behind => ?_
      have ascending : Ascending upper := sorted.sublist (List.drop_sublist _ _)
      obtain ⟨tail, whole⟩ := List.head?_eq_some_iff.1 first
      change b ∈ upper at behind
      rw [whole] at behind ascending
      rcases List.mem_cons.1 behind with rfl | later
      · omega
      · have := List.rel_of_pairwise_cons ascending later
        omega
    exact (List.take_subset_take_left _ (by simp [half]; omega)) before
  | case5 c d rest half upper notLess ih =>
    -- the block does not stand before the middle, where all ordinals are less
    apply ih (sorted.sublist (List.drop_sublist _ _))
    rw [← List.take_append_drop half (c :: d :: rest), List.mem_append] at member
    refine member.resolve_left fun before => notLess ?_
    have nonempty : upper ≠ [] := by
      apply List.ne_nil_of_length_pos
      simp [upper, half]
      omega
    obtain ⟨middle, tail, whole⟩ := List.exists_cons_of_ne_nil nonempty
    have behind : middle ∈ (c :: d :: rest).drop half := by
      change middle ∈ upper
      rw [whole]
      exact List.mem_cons_self
    have := sorted.lt_of_take_of_drop before behind
    simp [whole]
    omega

theorem bisect_eq_some_iff {id : Nat} {blocks : List Block} (sorted : Ascending blocks)
    {b : Block} : bisect id blocks = some b ↔ b ∈ blocks ∧ b.ordinal = id :=
  ⟨bisect_sound, fun found => bisect_of_mem sorted found.1 found.2⟩

theorem Graph.block?_eq_some_iff {g : Graph} (sorted : Ascending g.blocks) {id : Nat} {b : Block} :
    g.block? id = some b ↔ b ∈ g.blocks ∧ b.ordinal = id := bisect_eq_some_iff sorted

theorem Graph.isSorted_iff_adjacent {g : Graph} :
    g.isSorted = true ↔ ∀ i a b, g.blocks[i]? = some a → g.blocks[i + 1]? = some b →
      a.ordinal < b.ordinal := by
  rw [isSorted, ascending_iff_adjacent]
  simp only [List.getElem?_map, Option.map_eq_some_iff]
  constructor
  · intro adjacent i a b here next
    exact adjacent i _ _ ⟨a, here, rfl⟩ ⟨b, next, rfl⟩
  · rintro adjacent i _ _ ⟨a, here, rfl⟩ ⟨b, next, rfl⟩
    exact adjacent i a b here next

theorem Graph.filter_ordinal_eq {g : Graph} (sorted : Ascending g.blocks) (id : Nat) :
    (g.blocks.filter fun b => b.ordinal = id) = (g.block? id).toList := by
  have single : Ascending (g.block? id).toList := by
    cases g.block? id with
    | none => exact List.Pairwise.nil
    | some b => exact List.pairwise_singleton _ b
  apply Ascending.eq_of_mem_iff (List.Pairwise.filter _ sorted) single
  intro b
  rw [List.mem_filter, decide_eq_true_eq, Option.mem_toList, block?_eq_some_iff sorted]

theorem Graph.filterMap_block? {g : Graph} (sorted : Ascending g.blocks) {ids : List Nat}
    (ascending : ids.Pairwise (· < ·)) :
    ids.filterMap g.block? = g.blocks.filter fun b => b.ordinal ∈ ids := by
  have found : Ascending (ids.filterMap g.block?) := by
    rw [Ascending, List.pairwise_filterMap]
    apply ascending.imp
    intro first second less a here b next
    rw [((block?_eq_some_iff sorted).1 here).2, ((block?_eq_some_iff sorted).1 next).2]
    exact less
  apply found.eq_of_mem_iff (List.Pairwise.filter _ sorted)
  intro b
  simp only [List.mem_filterMap, block?_eq_some_iff sorted, List.mem_filter, decide_eq_true_eq]
  constructor
  · rintro ⟨id, asked, listed, rfl⟩
    exact ⟨listed, asked⟩
  · intro ⟨listed, asked⟩
    exact ⟨b.ordinal, asked, listed, rfl⟩

/-- A graph is sorted if each ordinal is less than the next one. In that case all of them ascend,
none is repeated, and looking up an ordinal comes to the same as a search from the first block to
the last: the block that is found is the only one with the ordinal, and none is found only if there
is none. -/
theorem Graph.block?_exact (g : Graph) :
    (g.isSorted = true ↔ ∀ i a b, g.blocks[i]? = some a → g.blocks[i + 1]? = some b →
      a.ordinal < b.ordinal) ∧
    (g.isSorted = true →
      (g.blocks.map Block.ordinal).Pairwise (· < ·) ∧ (g.blocks.map Block.ordinal).Nodup ∧
        ∀ id, g.block? id = (g.blocks.find? fun b => b.ordinal = id) ∧
          (∀ b, g.block? id = some b ↔ (g.blocks.filter fun c => c.ordinal = id) = [b]) ∧
          (g.block? id = none ↔ ∀ b ∈ g.blocks, b.ordinal ≠ id)) := by
  refine ⟨isSorted_iff_adjacent, fun ascends => ?_⟩
  have increasing : (g.blocks.map Block.ordinal).Pairwise (· < ·) := ascending_iff.1 ascends
  have sorted : Ascending g.blocks := isSorted_iff.1 ascends
  refine ⟨increasing, increasing.imp Nat.ne_of_lt, fun id => ⟨?_, fun b => ?_, ?_⟩⟩
  · rw [← List.head?_filter, filter_ordinal_eq sorted, Option.head?_toList]
  · rw [filter_ordinal_eq sorted, Option.toList_eq_singleton_iff]
  · rw [← Option.toList_eq_nil_iff, ← filter_ordinal_eq sorted, List.filter_eq_nil_iff]
    simp only [decide_eq_true_eq, ne_eq]

def Graph.gapped : Graph :=
  { start := 2
    exit := 4294967295
    blocks := [2, 3, 7, 30, 4294967295].map fun id => ⟨id, .plain, [], none⟩
    labels := []
    unreachable := [] }

theorem Graph.gapped_lookups :
    gapped.isSorted = true ∧
      gapped.block? 2 = some ⟨2, .plain, [], none⟩ ∧
      gapped.block? 30 = some ⟨30, .plain, [], none⟩ ∧
      gapped.block? 4294967295 = some ⟨4294967295, .plain, [], none⟩ ∧
      gapped.block? 1 = none ∧ gapped.block? 29 = none ∧ gapped.block? 4294967294 = none := by
  have sorted : gapped.isSorted = true := by decide
  obtain ⟨-, -, lookup⟩ := (block?_exact gapped).2 sorted
  refine ⟨sorted, ((lookup 2).2.1 _).2 ?_, ((lookup 30).2.1 _).2 ?_,
    ((lookup 4294967295).2.1 _).2 ?_, (lookup 1).2.2.2 ?_, (lookup 29).2.2.2 ?_,
    (lookup 4294967294).2.2.2 ?_⟩
  · rfl
  · rfl
  · rfl
  · decide
  · decide
  · decide

end FlowLint
