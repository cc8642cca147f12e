import FlowLint.Proofs.Graph.Plan

/-!
The reachable blocks against the graph itself. Which of them are in a region can be told from the
constructs that control can reach, without a look at the plan.
-/

namespace FlowLint.Graph

variable {g : Graph}

/-- The blocks that control can reach and whose ordinals have the property, as they are listed. -/
noncomputable def reached (g : Graph) (property : Nat → Prop) : List Block :=
  open Classical in g.blocks.filter fun b => g.Reachable b.ordinal ∧ property b.ordinal

/-- Some construct that control can reach has the ordinal in its part of the given kind. -/
def Guards (g : Graph) (kind : RegionKind) (id : Nat) : Prop :=
  ∃ b ∈ g.blocks, g.Reachable b.ordinal ∧ ∃ t, b.edge = some (.guarded t) ∧ t.Covers kind id

theorem mem_reached_iff {property : Nat → Prop} {b : Block} :
    b ∈ g.reached property ↔ b ∈ g.blocks ∧ g.Reachable b.ordinal ∧ property b.ordinal := by
  simp [reached]

theorem reached_ascending (sorted : Ascending g.blocks) (property : Nat → Prop) :
    Ascending (g.reached property) := List.Pairwise.filter _ sorted

theorem filter_reachableBlocks (sorted : Ascending g.blocks) {property : Nat → Prop}
    {test : Nat → Bool} (decides : ∀ id, test id = true ↔ property id) :
    (g.reachableBlocks.filter fun b => test b.ordinal) = g.reached property := by
  apply Ascending.eq_of_mem_iff (List.Pairwise.filter _ (reachableBlocks_ascending sorted))
    (reached_ascending sorted property)
  intro b
  rw [List.mem_filter, mem_reachableBlocks_iff sorted, decides, mem_reached_iff, and_assoc]

theorem contains_iff_guards (sorted : Ascending g.blocks) {kind : RegionKind} {id : Nat} :
    g.plan.regions.contains kind id = true ↔ g.Guards kind id := contains_regions_iff sorted

theorem covers_iff_guards (sorted : Ascending g.blocks) {id : Nat} :
    g.plan.regions.covers id = true ↔ ∃ kind, g.Guards kind id := by
  simp only [Regions.covers_iff, contains_iff_guards sorted]

end FlowLint.Graph
