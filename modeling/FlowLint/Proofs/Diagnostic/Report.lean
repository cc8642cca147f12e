import FlowLint.Proofs.Diagnostic.Sink

/-!
What a sink and its reports say after any history of publications. The list of all diagnostics, the
counts and the verdict are computed one by one, the counts without regard to the order; they
agree, and a report that hides some of the diagnostics still counts them and judges by them.
-/

namespace FlowLint

namespace Sink

theorem countP_severities (ds : List Diagnostic) :
    ds.countP (·.severity == .error) + ds.countP (·.severity == .warning) +
      ds.countP (·.severity == .info) = ds.length := by
  induction ds with
  | nil => rfl
  | cons d ds ih =>
    simp only [List.countP_cons, List.length_cons, ← ih]
    cases d.severity <;> simp <;> omega

end Sink

theorem Options.blocks_iff (o : Options) (d : Diagnostic) :
    o.blocks d = true ↔ d.severity = .error ∨ o.denyWarnings = true ∧ d.severity = .warning := by
  unfold blocks
  cases d.severity <;> simp

namespace Sink

theorem count_pos_iff (s : Sink) (severity : Severity) :
    0 < s.count severity ↔ ∃ d ∈ s.all, d.severity = severity := by
  simp only [count_eq_countP_all, List.countP_pos_iff, beq_iff_eq]

theorem blocked_iff (s : Sink) (o : Options) :
    (s.report o).blocked = true ↔
      0 < s.count .error ∨ o.denyWarnings = true ∧ 0 < s.count .warning := by
  simp only [report, List.any_eq_true, o.blocks_iff, count_pos_iff, and_or_left, exists_or,
    ← exists_and_left, and_left_comm]

/-- Whatever was published in which order: the diagnostics of a routine are its batches in the
order of publication, all diagnostics are those of the routines by ascending identifier, and the
size and the three counts are theirs, also if they are taken from the table in another order. A
report counts all diagnostics and shows those that are severe enough; it blocks if there are
errors, or warnings that are denied. Its threshold only matters for what it shows. -/
theorem publishAll_exact (history : List (RoutineId × List Diagnostic)) :
    let s := Sink.empty.publishAll history
    (∀ id, s.forRoutine id = (history.filter (·.1 == id)).flatMap (·.2)) ∧
      (∀ ids : List RoutineId, ids.Pairwise (· < ·) →
        (∀ id, id ∈ ids ↔ ∃ batch ∈ history, batch.1 = id) → s.all = ids.flatMap s.forRoutine) ∧
      (∀ listed : List (RoutineId × List Diagnostic), listed.Perm s.entries →
        (listed.flatMap (·.2)).length = s.size ∧
        ∀ severity, (listed.flatMap (·.2)).countP (·.severity == severity) = s.count severity) ∧
      s.size = s.all.length ∧
      s.count .error + s.count .warning + s.count .info = s.size ∧
      ∀ o : Options,
        (s.report o).errors = s.all.countP (·.severity == .error) ∧
        (s.report o).warnings = s.all.countP (·.severity == .warning) ∧
        (s.report o).infos = s.all.countP (·.severity == .info) ∧
        (s.report o).shown = s.all.filter (fun d => o.minSeverity ≤ d.severity) ∧
        ((s.report o).blocked = true ↔
          0 < (s.report o).errors ∨ o.denyWarnings = true ∧ 0 < (s.report o).warnings) ∧
        (∀ threshold, s.report { o with minSeverity := threshold } =
          { s.report o with shown := s.all.filter (fun d => threshold ≤ d.severity) }) ∧
        (s.hasErrors = true → (s.report o).blocked = true) := by
  intro s
  have batches (id : RoutineId) : s.forRoutine id = (history.filter (·.1 == id)).flatMap (·.2) :=
    forRoutine_publishAll .empty history id
  refine ⟨batches, ?_, ?_, s.size_eq_length_all, ?_, fun o => ?_⟩
  · intro ids ascending published
    refine all_eq_flatMap ascending fun id absent => ?_
    rw [batches, List.flatMap_eq_nil_iff]
    intro batch found
    obtain ⟨member, same⟩ := List.mem_filter.1 found
    exact absurd ((published id).2 ⟨batch, member, eq_of_beq same⟩) absent
  · intro listed perm
    have spelled : (listed.flatMap (·.2)).Perm s.all :=
      (perm.flatMap_right _).trans s.flatMap_entries_perm
    refine ⟨by rw [size_eq_length_all, spelled.length_eq], fun severity => ?_⟩
    rw [count_eq_countP_all, spelled.countP_eq]
  · rw [count_eq_countP_all, count_eq_countP_all, count_eq_countP_all, size_eq_length_all,
      countP_severities]
  · refine ⟨s.count_eq_countP_all _, s.count_eq_countP_all _, s.count_eq_countP_all _, rfl,
      s.blocked_iff o, fun threshold => rfl, fun errors => ?_⟩
    exact (s.blocked_iff o).2 (.inl (of_decide_eq_true errors))

/-- Four batches: two of the later routine with an error in the second, one of the earlier routine,
and an empty one. -/
def interleaved : List (RoutineId × List Diagnostic) :=
  [(2, [⟨2, ⟨5, 9⟩, .divisionByZero⟩, ⟨2, ⟨1, 3⟩, .evalUsed⟩]), (0, [⟨0, ⟨4, 6⟩, .selfAssignment⟩]),
   (1, []), (2, [⟨2, ⟨0, 2⟩, .assignmentToThis⟩])]

theorem interleaved_published :
    [0, 1, 2].Pairwise (· < ·) ∧ (∀ id, id ∈ [0, 1, 2] ↔ ∃ batch ∈ interleaved, batch.1 = id) ∧
      (Sink.empty.publishAll interleaved).all =
        [0, 1, 2].flatMap (Sink.empty.publishAll interleaved).forRoutine ∧
      (Sink.empty.publishAll interleaved).hasErrors = true ∧
      ((Sink.empty.publishAll interleaved).report { minSeverity := .error }).blocked = true := by
  have ascending : [0, 1, 2].Pairwise (· < ·) := by decide
  have published (id : RoutineId) : id ∈ [0, 1, 2] ↔ ∃ batch ∈ interleaved, batch.1 = id := by
    have spoke : ∀ id ∈ [0, 1, 2], ∃ batch ∈ interleaved, batch.1 = id := by decide
    have listed : ∀ batch ∈ interleaved, batch.1 ∈ [0, 1, 2] := by decide
    refine ⟨spoke id, ?_⟩
    rintro ⟨batch, member, rfl⟩
    exact listed batch member
  have errors : (Sink.empty.publishAll interleaved).hasErrors = true := by decide
  obtain ⟨-, all, -, -, -, reports⟩ := publishAll_exact interleaved
  obtain ⟨-, -, -, -, -, -, blocks⟩ := reports { minSeverity := .error }
  exact ⟨ascending, published, all _ ascending published, errors, blocks errors⟩

end Sink

end FlowLint
