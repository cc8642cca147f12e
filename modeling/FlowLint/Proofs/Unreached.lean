import FlowLint.Proofs.Correspondence
import FlowLint.Proofs.ParentConstructor

/-!
Blocks that control cannot reach. What they contain and where they lead makes no difference: all
that counts is the source of those that are listed as unreachable. The exit of a graph and the uses
of its labels make no difference either.
-/

namespace FlowLint

/-- The same block, if control can reach it. Otherwise only the ordinal has to be the same and, if
the block is listed as unreachable, the source of its statements. -/
structure Block.Agrees (g : Graph) (b b' : Block) : Prop where
  ordinal : b'.ordinal = b.ordinal
  reached : g.Reachable b.ordinal → b' = b
  source : b.ordinal ∈ g.unreachable →
    b'.statements.filterMap (·.span) = b.statements.filterMap (·.span)

def Label.Agrees (l l' : Label) : Prop := l' = { l with isUsed := l'.isUsed }

/-- The exits may differ, too. -/
structure Graph.Agrees (g g' : Graph) : Prop where
  start : g'.start = g.start
  blocks : List.Forall₂ (Block.Agrees g) g.blocks g'.blocks
  labels : List.Forall₂ Label.Agrees g.labels g'.labels
  unreachable : g'.unreachable = g.unreachable

theorem Context.labels_of_agree {labels labels' : List Label}
    (agree : List.Forall₂ Label.Agrees labels labels') :
    Context.labels labels' = Context.labels labels := by
  apply agree.flatMap_eq
  intro l l' same
  rw [same]

namespace Graph.Agrees

variable {g g' : Graph}

theorem follows (agree : g.Agrees g') : g.Follows id (Block.Agrees g) g' where
  start := agree.start
  blocks := agree.blocks
  ordinal _ _ related := related.ordinal
  edge b b' related reached := by
    rw [related.reached reached]
    cases b.edge with
    | none => exact .none
    | some e => exact .some (.of_eq rfl rfl)
  mono := strictMono_id.strictMonoOn _

theorem routine_eq (agree : g.Agrees g') (sound : g.Sound) (c : Context) :
    c.routine g' = c.routine g := by
  apply agree.follows.routine_eq sound c
  · intro b b' reached related around
    rw [related.reached reached]
  · intro b b' reached related
    rw [related.reached reached]
  · exact Context.labels_of_agree agree.labels
  · apply agree.follows.unreachableCode_eq sound.sorted (strictMono_id.strictMonoOn _)
    · rw [agree.unreachable, List.map_id]
    · intro b b' listed related
      exact related.source listed

end Graph.Agrees

namespace Program

/-- Programs that agree on all that control can reach have the same diagnostics, and no report tells
them apart. -/
theorem unreached_irrelevant {p q : Program} {s t : Sink} (valid : p.defect? = none)
    (agree : p.Related (fun _ => Graph.Agrees) q) (yields : p.Yields s) (others : q.Yields t) :
    t.all = s.all ∧ ∀ o, t.report o = s.report o := by
  rw [defect?_eq_none_iff] at valid
  refine agree.report ?_ valid yields others
  intro r listed g g' body bodies c
  exact bodies.routine_eq (valid.sound r listed g body) c

def sourceBehindReturn : Block := ⟨1, .plain, [⟨.echo [], some ⟨70, 92⟩⟩], none⟩

theorem sourceBehindReturn_sound : (returning sourceBehindReturn).Sound :=
  ⟨by decide, by decide⟩

theorem returning_agree :
    (returning callBehindReturn).Agrees (returning sourceBehindReturn) where
  start := rfl
  blocks := by
    have same (b : Block) : Block.Agrees (returning callBehindReturn) b b :=
      ⟨rfl, fun _ => rfl, fun _ => rfl⟩
    refine .cons (same _) (.cons ⟨rfl, ?_, fun _ => rfl⟩ (.cons (same _) .nil))
    exact fun reached => absurd reached (returning_not_reachable rfl)
  labels := .nil
  unreachable := rfl

/-- The call behind the return makes no difference, nor does the guarded part around it. -/
theorem callBehindReturn_ignored :
    (derivedClass (returning callBehindReturn)).defect? = none ∧
      (derivedClass (returning sourceBehindReturn)).defect? = none ∧
      (derivedClass (returning sourceBehindReturn)).analyze.all =
        (derivedClass (returning callBehindReturn)).analyze.all := by
  have valid := defect?_eq_none_iff.2 (derivedClass_valid callBehindReturn_sound)
  have alsoValid := defect?_eq_none_iff.2 (derivedClass_valid sourceBehindReturn_sound)
  have agree : (derivedClass (returning callBehindReturn)).Related (fun _ => Graph.Agrees)
      (derivedClass (returning sourceBehindReturn)) :=
    ⟨rfl, .cons ⟨rfl, .some returning_agree, rfl⟩ .nil⟩
  have same := unreached_irrelevant valid agree (yields_analyze _) (yields_analyze _)
  exact ⟨valid, alsoValid, same.1⟩

end Program

end FlowLint
