import FlowLint.Proofs.Correspondence
import FlowLint.Proofs.Unsupported

/-!
Other ordinals for the same blocks. The analysis compares ordinals and does nothing else with them:
as long as they keep their order, whatever gaps open or close between them, the diagnostics stay.
-/

namespace FlowLint

variable (f : Nat → Nat)

def SwitchCase.renumber (c : SwitchCase) : SwitchCase := { c with target := f c.target }

def Edge.renumber : Edge → Edge
  | jump target => jump (f target)
  | loopBack target => loopBack (f target)
  | branch condition whenTrue whenFalse => branch condition (f whenTrue) (f whenFalse)
  | select value cases => select value (cases.map (·.renumber f))
  | foreach collection target => foreach collection (f target)
  | foreachNext key value body next => foreachNext key value (f body) (f next)
  | guarded t => guarded (t.renumber f)

def Block.renumber (b : Block) : Block :=
  { b with ordinal := f b.ordinal, edge := b.edge.map (·.renumber f) }

def Graph.renumber (g : Graph) : Graph :=
  { g with
    start := f g.start
    exit := f g.exit
    blocks := g.blocks.map (·.renumber f)
    unreachable := g.unreachable.map f }

/-- All ordinals that occur in a graph, whether they are those of a block or not. -/
def Graph.mentioned (g : Graph) : Set Nat :=
  g.ordinals ∪ {id | id ∈ g.exit :: g.references ++ g.unreachable}

def Program.renumber (f : RoutineId → Nat → Nat) (p : Program) : Program :=
  p.mapBodies fun id g => g.renumber (f id)

variable {f}

namespace Edge

theorem targets_renumber (e : Edge) : (e.renumber f).targets = e.targets.map f := by
  cases e with
  | select value cases =>
    simp only [renumber, targets, List.map_map]
    rfl
  | guarded t => cases final : t.final <;> simp [renumber, targets, TryConstruct.renumber, final]
  | _ => rfl

theorem construct?_renumber (e : Edge) :
    (e.renumber f).construct? = e.construct?.map (TryConstruct.renumber f) := by
  cases e <;> rfl

theorem parts_renumber (e : Edge) : (e.renumber f).parts = e.parts := by
  cases e with
  | select value cases =>
    simp only [renumber, parts, List.flatMap_map]
    rfl
  | _ => rfl

theorem follows_renumber (e : Edge) : e.Follows f (e.renumber f) :=
  ⟨e.targets_renumber, e.construct?_renumber⟩

end Edge

theorem Block.edge_follows_renumber (b : Block) :
    Option.Rel (Edge.Follows f) b.edge (b.renumber f).edge :=
  .map_right Edge.follows_renumber b.edge

namespace Context

variable (c : Context)

theorem ofEdge_renumber (e : Edge) : c.ofEdge (e.renumber f) = c.ofEdge e := by
  have leaving : c.leave (.edge (e.renumber f)) = c.leave (.edge e) := by
    cases e <;> rfl
  rw [ofEdge, ofEdge, e.parts_renumber, leaving]

/-- No rule looks at an ordinal. -/
theorem remarks_renumber (around : Surroundings) (b : Block) :
    c.remarks around (.block (b.renumber f)) = c.remarks around (.block b) := by
  rw [remarks_block, remarks_block, ofBlock, ofBlock, Block.renumber]
  cases b.edge with
  | none => rfl
  | some e => simp [ofEdge_renumber]

end Context

theorem Block.calls_renumber (b : Block) :
    (Node.block (b.renumber f)).entered.any Node.isParentCall =
      (Node.block b).entered.any Node.isParentCall := by
  have edge (e : Edge) : (Node.edge (e.renumber f)).entered.any Node.isParentCall =
      (Node.edge e).entered.any Node.isParentCall := by
    simp only [Node.entered_eq, Node.children, e.parts_renumber]
    rfl
  rw [Node.entered_eq, Node.entered_eq]
  simp only [Node.children, renumber, List.flatMap_append, List.any_cons, List.any_append]
  cases b.edge with
  | none => rfl
  | some e => simp [Node.isParentCall, edge]

namespace Graph

variable {g : Graph}

theorem follows_renumber (mono : StrictMonoOn f g.mentioned) :
    g.Follows f (fun b b' => b' = b.renumber f) (g.renumber f) :=
  follows_map rfl rfl (fun _ => rfl) Block.edge_follows_renumber
    (mono.mono Set.subset_union_left)

theorem Sound.renumber (sound : g.Sound) (mono : StrictMonoOn f g.mentioned) :
    (g.renumber f).Sound := by
  refine (follows_renumber mono).sound sound ?_
  rintro b _ rfl
  exact b.edge_follows_renumber

theorem routine_renumber (sound : g.Sound) (mono : StrictMonoOn f g.mentioned) (c : Context) :
    c.routine (g.renumber f) = c.routine g := by
  have follows := follows_renumber mono
  apply follows.routine_eq sound c
  · rintro b _ - rfl around
    exact c.remarks_renumber around b
  · rintro b _ - rfl
    exact b.calls_renumber
  · rfl
  · refine follows.unreachableCode_eq sound.sorted (mono.mono ?_) rfl ?_
    · refine Set.union_subset_union_right _ fun id listed => ?_
      exact List.mem_append_right _ listed
    · rintro b _ - rfl
      rfl

end Graph

namespace Program

variable {p : Program} {f : RoutineId → Nat → Nat}

/-- A program whose bodies get other ordinals in the same order stays without defect, its
diagnostics are the same in the same order, and no report tells the programs apart. -/
theorem renumber_exact (valid : p.defect? = none) (mono : ∀ r ∈ p.routines, ∀ g,
    r.graph = some g → StrictMonoOn (f r.symbol) g.mentioned) :
    (p.renumber f).defect? = none ∧
      ∀ s t, p.Yields s → (p.renumber f).Yields t →
        t.all = s.all ∧ ∀ o, t.report o = s.report o := by
  rw [defect?_eq_none_iff] at valid ⊢
  have alsoValid : (p.renumber f).Valid := valid.mapBodies fun r listed g body =>
    (valid.sound r listed g body).renumber (mono r listed g body)
  refine ⟨alsoValid, fun s t yields others => ?_⟩
  refine (p.related_mapBodies _).report ?_ valid yields others
  rintro r listed g _ body rfl c
  exact Graph.routine_renumber (valid.sound r listed g body) (mono r listed g body) c

/-- Leaves gaps between the first ordinals and confuses all others with one of them. -/
def gaps (id : Nat) : Nat := if id ≤ 5 then 10 * id + 3 else 13

theorem generator_gaps :
    generator.defect? = none ∧ (generator.renumber fun _ => gaps).defect? = none ∧
      (generator.renumber fun _ => gaps).analyze.all = generator.analyze.all := by
  have valid := defect?_eq_none_iff.2 generator_valid
  have listed : ∀ b ∈ guardedYields.blocks, b.ordinal ≤ 5 := by decide
  have others : ∀ id ∈ guardedYields.exit :: guardedYields.references ++ guardedYields.unreachable,
      id ≤ 5 := by decide
  have known (id : Nat) (mentioned : id ∈ guardedYields.mentioned) : id ≤ 5 := by
    rcases mentioned with ⟨b, member, rfl⟩ | other
    · exact listed b member
    · exact others id other
  have mono : ∀ r ∈ generator.routines, ∀ g, r.graph = some g → StrictMonoOn gaps g.mentioned := by
    intro r member g body first inFirst second inSecond less
    obtain rfl := List.mem_singleton.1 member
    obtain rfl := Option.some.inj body
    have low := known first inFirst
    have high := known second inSecond
    simp only [gaps, low, high, if_true]
    omega
  obtain ⟨alsoValid, same⟩ := renumber_exact (f := fun _ => gaps) valid mono
  exact ⟨valid, alsoValid, (same _ _ (yields_analyze _) (yields_analyze _)).1⟩

end Program

end FlowLint
