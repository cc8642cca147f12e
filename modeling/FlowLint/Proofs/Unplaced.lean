import FlowLint.Proofs.ParentConstructor
import FlowLint.Proofs.Retouch.Rule

/-!
Programs of which no source is known. The rules that are about source are silent about them; all
others say what they say with it, in the same order and in the same words, but point at the heading
of the routine.
-/

namespace FlowLint

namespace Retouch

/-- Takes away every span that may be missing, and nothing else. -/
def unplaced : Retouch := ⟨true, id, id⟩

theorem unplaced_keeps (c : Context) : unplaced.Keeps c where
  target? _ := rfl
  missingTarget _ := Iff.rfl
  type? _ := rfl
  missingType _ := Iff.rfl
  ambiguousType _ := Iff.rfl

end Retouch

def Node.optionalSpans : Node → List Span
  | statement s => s.span.toList
  | expr e =>
    e.span.toList ++
      match e.form with
      | .call call => call.nameSpan.toList
      | _ => []
  | type r => r.span.toList
  | _ => []

theorem Node.optionalSpans_unplaced (n : Node) : (n.retouch .unplaced).optionalSpans = [] := by
  have erased (span : Option Span) : (Retouch.unplaced.span span).toList = [] := rfl
  cases n with
  | statement s => exact erased s.span
  | expr e =>
    simp only [Node.retouch, Node.optionalSpans, Expr.span_retouch, erased, List.nil_append,
      Expr.form_retouch]
    cases e.form <;> rfl
  | type r => exact erased r.span
  | _ => rfl

/-- Nothing in the program has a span that may be missing, whether control can reach it or not. -/
def Program.HasNoSource (p : Program) : Prop :=
  ∀ r ∈ p.routines, ∀ g, r.graph = some g →
    ∀ b ∈ g.blocks, ∀ n ∈ (Node.block b).entered, n.optionalSpans = []

/-- The codes of the rules that say nothing where there is no source. -/
def sourceCodes : List String := ["W0214", "W0208", "I0302", "E0103", "W0201"]

/-- The codes of the findings that have a place of their own: labels and clauses. -/
def placeCodes : List String := ["E0101", "E0102", "I0301"]

namespace Finding

/-- A return from a final block is reported only where there is source for it. -/
def isAboutSource (f : Finding) : Bool :=
  f.code ∈ sourceCodes || f = .notImplemented "return from 'finally' block"

theorem isAboutSource_iff {f : Finding} : f.isAboutSource = true ↔ f.anchor = .source := by
  cases f <;> simp [isAboutSource, anchor, code, sourceCodes]

theorem anchor_of_placed {f : Finding} (other : f.code ∉ placeCodes) (place : f.anchor = .place) :
    f.code = "W0206" := by
  cases f <;> simp_all [anchor, code, placeCodes]
  split at place <;> cases place

end Finding

def Diagnostic.words (d : Diagnostic) : RoutineId × String × String :=
  (d.routine, d.code, d.message)

/-- The diagnostic points at the heading of its routine. -/
def Diagnostic.IsAtHeading (symbols : SymbolTable) (d : Diagnostic) : Prop :=
  ∃ symbol, symbols.routine? d.routine = some symbol ∧ d.span = symbol.heading

namespace Retouch

variable {r : Remark}

theorem remark_unplaced_of_source (source : r.finding.isAboutSource = true) :
    unplaced.remark r = none := by
  rw [remark, Finding.isAboutSource_iff.1 source]
  rfl

theorem remark_unplaced_of_other (other : r.finding.isAboutSource = false) :
    ∃ span, unplaced.remark r = some ⟨span, r.finding⟩ := by
  have anchored : r.finding.anchor ≠ .source := by
    intro source
    rw [Finding.isAboutSource_iff.2 source] at other
    cases other
  rw [remark]
  cases anchor : r.finding.anchor with
  | node => exact ⟨_, rfl⟩
  | source => exact absurd anchor anchored
  | place => exact ⟨_, rfl⟩

theorem words_unplaced (id : RoutineId) (heading : Span) (rs : List Remark) :
    ((rs.filterMap unplaced.remark).map (·.diagnostic id heading)).map Diagnostic.words =
      ((rs.map (·.diagnostic id heading)).filter fun d => !d.finding.isAboutSource).map
        Diagnostic.words := by
  induction rs with
  | nil => rfl
  | cons r rest ih =>
    have same : (r.diagnostic id heading).finding = r.finding := rfl
    cases about : r.finding.isAboutSource with
    | true =>
      rw [List.filterMap_cons_none (remark_unplaced_of_source about), List.map_cons,
        List.filter_cons_of_neg (by simp [same, about]), ih]
    | false =>
      obtain ⟨span, kept⟩ := remark_unplaced_of_other about
      rw [List.filterMap_cons_some kept, List.map_cons, List.map_cons, List.map_cons,
        List.filter_cons_of_pos (by simp [same, about]), List.map_cons, ih]
      rfl

end Retouch

namespace Context

variable (c : Context) {g : Graph}

theorem span_unplaced (sound : g.Sound) {r : Remark} (member : r ∈ c.routine (g.retouch .unplaced))
    (other : r.finding.code ∉ placeCodes) : r.span.getD c.symbol.heading = c.symbol.heading := by
  have made := member
  rw [routine_retouch (Retouch.unplaced_keeps c) sound] at made
  obtain ⟨before, -, kept⟩ := List.mem_filterMap.1 made
  rw [Retouch.remark] at kept
  cases anchor : before.finding.anchor with
  | node =>
    rw [anchor] at kept
    obtain rfl := Option.some.inj kept
    rfl
  | source =>
    rw [anchor] at kept
    cases kept
  | place =>
    rw [anchor] at kept
    obtain rfl := Option.some.inj kept
    rw [c.span_of_omission member (Finding.anchor_of_placed other anchor), Option.getD_some]

end Context

namespace Program

variable {p : Program}

/-- The program without any span that may be missing. -/
def unplaced (p : Program) : Program := p.retouch .unplaced

theorem unplaced_hasNoSource (p : Program) : p.unplaced.HasNoSource := by
  intro r listed g body b block n inside
  obtain ⟨r, -, rfl⟩ := List.mem_map.1 listed
  obtain ⟨g, -, rfl⟩ := Option.map_eq_some_iff.1 body
  obtain ⟨b, -, rfl⟩ := List.mem_map.1 block
  rw [Block.entered_retouch] at inside
  obtain ⟨m, -, rfl⟩ := List.mem_map.1 inside
  exact m.optionalSpans_unplaced

/-- A program that loses its source stays without defect. Its diagnostics are, in the same order and
word for word, those from before that are not about source; labels and clauses apart, all of them
point at the heading of their routine. -/
theorem unplaced_exact {s : Sink} (valid : p.defect? = none) (yields : p.Yields s) :
    p.unplaced.HasNoSource ∧ p.unplaced.defect? = none ∧
      ∀ t, p.unplaced.Yields t →
        t.all.map Diagnostic.words =
            (s.all.filter fun d => !d.finding.isAboutSource).map Diagnostic.words ∧
          ∀ d ∈ t.all, d.code ∉ placeCodes → d.IsAtHeading p.symbols := by
  rw [defect?_eq_none_iff] at valid ⊢
  have alsoValid : p.unplaced.Valid := valid.retouch .unplaced
  refine ⟨p.unplaced_hasNoSource, alsoValid, fun t others => ?_⟩
  refine (p.related_mapBodies fun _ g => g.retouch .unplaced).all
    (D := fun l l' => l'.map Diagnostic.words =
        (l.filter fun d => !d.finding.isAboutSource).map Diagnostic.words ∧
      ∀ d ∈ l', d.code ∉ placeCodes → d.IsAtHeading p.symbols)
    ⟨rfl, by simp⟩ ?_ ?_ valid alsoValid yields others
  · rintro first first' second second' ⟨left, leftPlaces⟩ ⟨right, rightPlaces⟩
    refine ⟨?_, ?_⟩
    · rw [List.map_append, List.filter_append, List.map_append, left, right]
    · exact List.forall_mem_append.2 ⟨leftPlaces, rightPlaces⟩
  · rintro r listed g _ symbol body rfl declared
    have sound := valid.sound r listed g body
    let c := r.context p.symbols symbol
    refine ⟨?_, ?_⟩
    · rw [Context.routine_retouch (Retouch.unplaced_keeps c) sound]
      exact Retouch.words_unplaced _ _ _
    · intro d member other
      obtain ⟨remark, made, rfl⟩ := List.mem_map.1 member
      exact ⟨symbol, declared, c.span_unplaced sound made other⟩

def evalOfUnset : Expr :=
  let text : Expr :=
    ⟨.var ⟨.direct "code", .ordinary, true⟩, some ⟨11, 16⟩, .any, ⟨true, false, false, false⟩, none,
      none⟩
  ⟨.eval text, some ⟨6, 17⟩, .any, ⟨true, false, false, false⟩, none, none⟩

def evaluatingGraph : Graph :=
  { start := 0
    exit := 1
    blocks := [⟨0, .start, [⟨.expression evalOfUnset, none⟩], some (.jump 1)⟩, ⟨1, .exit, [], none⟩]
    labels := []
    unreachable := [] }

theorem evaluatingGraph_sound : evaluatingGraph.Sound := ⟨by decide, by decide⟩

def evaluating : Program :=
  { symbols := ⟨[], [Context.script.symbol]⟩
    routines := [⟨0, some evaluatingGraph, .empty⟩] }

theorem evaluating_valid : evaluating.Valid where
  declared := by simp [evaluating, SymbolTable.routine?]
  distinct := List.nodup_singleton _
  sound := by simp [evaluating, evaluatingGraph_sound]

theorem evaluating_found : ⟨0, ⟨6, 10⟩, .evalUsed⟩ ∈ evaluating.analyze.all := by
  let r : Routine := ⟨0, some evaluatingGraph, .empty⟩
  let c := r.context evaluating.symbols Context.script.symbol
  have inside : .expr evalOfUnset ∈ evaluatingGraph.entered :=
    Graph.expr_mem_entered evaluatingGraph_sound.sorted List.mem_cons_self rfl List.mem_cons_self
      List.mem_cons_self
  have said (around : Surroundings) :
      ⟨some ⟨6, 10⟩, .evalUsed⟩ ∈ c.enter around (.expr evalOfUnset) := List.mem_singleton.2 rfl
  have made := r.mem_diagnostics_of_node rfl rfl inside (.inl said)
  exact ((yields_analyze _).mem_all_iff evaluating_valid).2 ⟨r, List.mem_cons_self, made⟩

/-- The evaluation is still reported, but not the text. -/
theorem evaluating_unplaced :
    evaluating.defect? = none ∧ evaluating.unplaced.defect? = none ∧
      (0, "I0304", Finding.evalUsed.message) ∈
        evaluating.unplaced.analyze.all.map Diagnostic.words ∧
      ∀ d ∈ evaluating.unplaced.analyze.all, d.code ≠ "W0214" := by
  have valid := defect?_eq_none_iff.2 evaluating_valid
  obtain ⟨-, alsoValid, each⟩ := unplaced_exact valid (yields_analyze _)
  obtain ⟨same, -⟩ := each _ (yields_analyze _)
  refine ⟨valid, alsoValid, ?_, fun d member unset => ?_⟩
  · rw [same]
    exact List.mem_map.2 ⟨_, List.mem_filter.2 ⟨evaluating_found, rfl⟩, rfl⟩
  · have among := List.mem_map_of_mem (f := Diagnostic.words) member
    rw [same] at among
    obtain ⟨before, kept, equal⟩ := List.mem_map.1 among
    have code : before.finding.code = "W0214" := (congrArg (·.2.1) equal).trans unset
    have about : before.finding.isAboutSource = true := by
      rw [Finding.isAboutSource, code]
      rfl
    simp [about] at kept

end Program

end FlowLint
