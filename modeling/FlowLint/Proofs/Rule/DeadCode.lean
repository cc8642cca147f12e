import FlowLint.Proofs.Phase
import FlowLint.Proofs.Related
import FlowLint.Proofs.Span

/-!
Code that control cannot reach. Each block that is listed as unreachable is reported once, in
ascending order, if any of its statements has a place, and the span of the report runs from the
first of these places to the last. So it makes no difference in which order and how often the blocks
are listed, nor in which order the statements of one of them stand.
-/

namespace FlowLint

def Block.source (b : Block) : Set Span := {t | ∃ s ∈ b.statements, s.span = some t}

theorem Block.mem_source_iff {b : Block} {t : Span} :
    t ∈ b.source ↔ t ∈ b.statements.filterMap (·.span) := List.mem_filterMap.symm

namespace Context

variable {g : Graph} {id : Nat} {span : Span}

theorem sourceOf_eq_some_iff (sorted : Ascending g.blocks) :
    sourceOf g id = some span ↔ ∃ b ∈ g.blocks, b.ordinal = id ∧ Span.Bounds b.source span := by
  have source (b : Block) : {t | t ∈ b.statements.filterMap (·.span)} = b.source :=
    Set.ext fun t => Block.mem_source_iff.symm
  simp only [sourceOf, Option.bind_eq_some_iff, Graph.block?_eq_some_iff sorted,
    Span.joinAll_eq_some_iff, source, and_assoc]

theorem isSome_sourceOf_iff (sorted : Ascending g.blocks) :
    (sourceOf g id).isSome = true ↔ ∃ b ∈ g.blocks, b.ordinal = id ∧ b.source.Nonempty := by
  have source (b : Block) :
      (∃ span, Span.joinAll (b.statements.filterMap (·.span)) = some span) ↔ b.source.Nonempty :=
    Span.exists_joinAll_iff.trans (exists_congr fun t => Block.mem_source_iff.symm)
  simp only [Option.isSome_iff_exists, sourceOf, Option.bind_eq_some_iff]
  rw [exists_comm]
  simp only [Graph.block?_eq_some_iff sorted, exists_and_left, source, and_assoc]

def deadIds (g : Graph) : List Nat :=
  (unreachableIds g).filter fun id => (sourceOf g id).isSome

theorem mem_deadIds_iff (sorted : Ascending g.blocks) :
    id ∈ deadIds g ↔
      id ∈ g.unreachable ∧ ∃ b ∈ g.blocks, b.ordinal = id ∧ b.source.Nonempty := by
  rw [deadIds, List.mem_filter, mem_unreachableIds_iff, isSome_sourceOf_iff sorted]

theorem deadIds_pairwise (g : Graph) : (deadIds g).Pairwise (· < ·) :=
  (unreachableIds_pairwise g).filter _

/-- The code of the block is reported as unreachable, from its first place to its last. -/
def Tells (g : Graph) (id : Nat) (r : Remark) : Prop :=
  ∃ b ∈ g.blocks, b.ordinal = id ∧
    ∃ span, r = ⟨some span, .unreachableCode⟩ ∧ Span.Bounds b.source span

theorem forall₂_deadIds (sorted : Ascending g.blocks) :
    List.Forall₂ (Tells g) (deadIds g) (unreachableCode g) := by
  rw [deadIds, unreachableCode]
  induction unreachableIds g with
  | nil => exact .nil
  | cons id rest ih =>
    cases found : sourceOf g id with
    | none => simpa [found] using ih
    | some span =>
      obtain ⟨b, listed, same, bounds⟩ := (sourceOf_eq_some_iff sorted).1 found
      have tells : Tells g id ⟨some span, .unreachableCode⟩ :=
        ⟨b, listed, same, span, rfl, bounds⟩
      simpa [found] using ⟨tells, ih⟩

/-- The same blocks are listed as unreachable, in whatever order and however often, and their
statements are in another order. -/
structure Reordered (g h : Graph) : Prop where
  listed : ∀ id, id ∈ h.unreachable ↔ id ∈ g.unreachable
  blocks : List.Forall₂ (fun b d => d.ordinal = b.ordinal ∧
    (b.ordinal ∈ g.unreachable → d.statements.Perm b.statements)) g.blocks h.blocks

namespace Reordered

variable {h : Graph}

theorem sorted (reordered : Reordered g h) (sorted : Ascending g.blocks) : Ascending h.blocks := by
  have same : h.blocks.map Block.ordinal = g.blocks.map Block.ordinal :=
    reordered.blocks.map_eq fun _ _ related => related.1
  rw [Ascending, ← List.pairwise_map, same, List.pairwise_map]
  exact sorted

theorem deadSource_eq (reordered : Reordered g h) : h.deadSource = g.deadSource := by
  rw [Graph.deadSource, Graph.deadSource, List.filterMap_filter, List.filterMap_filter]
  refine reordered.blocks.filterMap_eq fun b d ⟨ordinal, perm⟩ => ?_
  by_cases listed : b.ordinal ∈ g.unreachable
  · have also : d.ordinal ∈ h.unreachable := by
      rw [ordinal, reordered.listed]
      exact listed
    have places := (perm listed).filterMap (·.span)
    rw [if_pos (decide_eq_true also), if_pos (decide_eq_true listed)]
    exact Span.joinAll_congr fun t => places.mem_iff
  · have neither : d.ordinal ∉ h.unreachable := by
      rw [ordinal, reordered.listed]
      exact listed
    simp [listed, neither]

theorem unreachableCode_eq (reordered : Reordered g h) (ascending : Ascending g.blocks) :
    unreachableCode h = unreachableCode g := by
  rw [Context.unreachableCode_eq ascending, Context.unreachableCode_eq (reordered.sorted ascending),
    reordered.deadSource_eq]

end Reordered

def isDeadCode (r : Remark) : Bool := r.finding.code == "W0201"

theorem filter_isDeadCode_of_within {codes : List String} {rs : List Remark}
    (within : Within codes rs) (apart : "W0201" ∉ codes) : rs.filter isDeadCode = [] := by
  apply within.filter_eq_nil
  intro r chosen known
  rw [eq_of_beq chosen] at known
  exact apart known

theorem filter_routine_deadCode (c : Context) (g : Graph) :
    (c.routine g).filter isDeadCode = unreachableCode g := by
  have walked : (c.walk g).found.filter isDeadCode = [] := by
    rw [List.filter_eq_nil_iff]
    intro r member chosen
    have other := c.walk_not_routine r member
    rw [eq_of_beq chosen] at other
    exact other (by decide)
  have parent : (c.parentConstructor (c.walk g).callsParent).filter isDeadCode = [] :=
    filter_isDeadCode_of_within (c.parentConstructor_within _ (List.mem_singleton.2 rfl))
      (by decide)
  have labelled : (labels g.labels).filter isDeadCode = [] :=
    filter_isDeadCode_of_within (labels_within g.labels (List.Subset.refl _)) (by decide)
  have dead : (unreachableCode g).filter isDeadCode = unreachableCode g := by
    rw [List.filter_eq_self]
    intro r member
    have known := unreachableCode_within g (List.mem_singleton.2 rfl) r member
    exact beq_of_eq (List.mem_singleton.1 known)
  rw [routine, List.filter_append, List.filter_append, List.filter_append, walked, parent,
    labelled, dead]
  rfl

/-- Of the blocks that are listed as unreachable, those that exist and have a place are reported
once each, in ascending order, from the least start of their statements to the greatest end. So it
makes no difference in which order and how often the blocks are listed, nor in which order their
statements stand. Nothing else is reported as unreachable. -/
theorem unreachableCode_exact {g : Graph} (sound : g.Sound) :
    (∃ ids : List Nat, ids.Pairwise (· < ·) ∧
      (∀ id, id ∈ ids ↔
        id ∈ g.unreachable ∧ ∃ b ∈ g.blocks, b.ordinal = id ∧ b.source.Nonempty) ∧
      List.Forall₂ (fun id r => ∃ b ∈ g.blocks, b.ordinal = id ∧
        ∃ span, r = ⟨some span, .unreachableCode⟩ ∧
          IsLeast (Span.start '' b.source) span.start ∧
          IsGreatest (Span.stop '' b.source) span.stop) ids (unreachableCode g)) ∧
    (∀ h, Reordered g h → unreachableCode h = unreachableCode g) ∧
    ∀ c : Context, (c.routine g).filter isDeadCode = unreachableCode g := by
  refine ⟨⟨deadIds g, deadIds_pairwise g, fun id => mem_deadIds_iff sound.sorted, ?_⟩,
    fun h reordered => reordered.unreachableCode_eq sound.sorted, fun c => ?_⟩
  · exact forall₂_deadIds sound.sorted
  · exact c.filter_routine_deadCode g

def severed (unreachable : List Nat) (statements : List Statement) : Graph :=
  { start := 0
    exit := 2
    blocks :=
      [⟨0, .start, [], some (.jump 2)⟩,
       ⟨1, .plain, statements, some (.jump 2)⟩,
       ⟨2, .exit, [], none⟩,
       ⟨3, .plain, [⟨.echo [], none⟩], some (.jump 2)⟩,
       ⟨4, .plain, [⟨.echo [], some ⟨30, 34⟩⟩], some (.jump 2)⟩]
    labels := []
    unreachable := unreachable }

def scattered : List Statement :=
  [⟨.echo [], some ⟨14, 20⟩⟩, ⟨.echo [], none⟩, ⟨.echo [], some ⟨10, 12⟩⟩]

theorem severed_reordered :
    (severed [4, 1, 9, 3, 4] scattered).Sound ∧
      Reordered (severed [4, 1, 9, 3, 4] scattered) (severed [1, 3, 4, 9] scattered.reverse) ∧
      unreachableCode (severed [1, 3, 4, 9] scattered.reverse) =
        [⟨some ⟨10, 20⟩, .unreachableCode⟩, ⟨some ⟨30, 34⟩, .unreachableCode⟩] := by
  have sound : (severed [4, 1, 9, 3, 4] scattered).Sound := ⟨by decide, by decide⟩
  have reordered : Reordered (severed [4, 1, 9, 3, 4] scattered)
      (severed [1, 3, 4, 9] scattered.reverse) := by
    constructor
    · intro id
      simp only [severed, List.mem_cons, List.not_mem_nil, or_false]
      omega
    · simp [severed, List.reverse_perm]
  have told : unreachableCode (severed [4, 1, 9, 3, 4] scattered) =
      [⟨some ⟨10, 20⟩, .unreachableCode⟩, ⟨some ⟨30, 34⟩, .unreachableCode⟩] := by
    rw [unreachableCode_eq sound.sorted]
    rfl
  refine ⟨sound, reordered, ?_⟩
  rw [(unreachableCode_exact sound).2.1 _ reordered]
  exact told

end Context

end FlowLint
