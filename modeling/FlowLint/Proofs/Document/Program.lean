import FlowLint.Analysis
import FlowLint.Program.Load
import FlowLint.Proofs.Document.Graph
import FlowLint.Proofs.Document.Symbol
import FlowLint.Proofs.Json.Document

namespace FlowLint

open Json (Decoder)
open Json.Decoder

variable {level : Nat}

theorem Routine.keeps {r : Routine}
    (free : ∀ g ∈ r.graph, ∀ b ∈ g.blocks, (Node.block b).DoubleFree) :
    Routine.decode.Keeps Routine.encode (level + 7) r := by
  refine .record rfl rfl (by decide) ?_
  intro inner fields deep read
  cases deep
  simp only [bind_eq_some, return_eq_some] at read ⊢
  rcases read with ⟨symbol, h1, graph, h2, registry, h3, rfl⟩
  exact ⟨_, (keeps_natural _).required h1 rfl,
    _, Keeps.optionalField record_rejects (fun g present => Graph.keeps (free g present)) h2 rfl,
    _, registry.keeps.withDefault rfl h3 rfl, rfl⟩

namespace Program

def constants (p : Program) : List Constant :=
  p.routines.flatMap fun r => r.graph.toList.flatMap fun g => g.blocks.flatMap fun b =>
    (Node.block b).entered.flatMap Node.constants

theorem doubleFree_of_constants {p : Program} (noDouble : ∀ c ∈ p.constants, ∀ d, c ≠ .double d) :
    ∀ r ∈ p.routines, ∀ g ∈ r.graph, ∀ b ∈ g.blocks, (Node.block b).DoubleFree := by
  intro r listed g present b member n entered c found
  apply noDouble c
  simp only [constants, List.mem_flatMap, Option.mem_toList]
  exact ⟨r, listed, g, present, b, member, n, entered, found⟩

theorem keeps {p : Program} (noDouble : ∀ c ∈ p.constants, ∀ d, c ≠ .double d) :
    decode.Keeps encode (level + 9) p := by
  have free := doubleFree_of_constants noDouble
  refine .record rfl rfl (by decide) ?_
  intro inner fields deep read
  cases deep
  simp only [bind_eq_some, return_eq_some] at read ⊢
  rcases read with ⟨symbols, h1, routines, h2, rfl⟩
  have routinesKept : (Decoder.list Routine.decode).Keeps (.list Routine.encode) (level + 8)
      routines := by
    refine .list fun inner deep r member => ?_
    cases deep
    exact Routine.keeps (free r member)
  exact ⟨_, symbols.keeps.withDefault rfl h1 rfl,
    _, routinesKept.withDefault rfl h2 rfl, rfl⟩

theorem checked_eq_ok {p q : Program} : p.checked = .ok q ↔ p.defect? = none ∧ p = q := by
  unfold checked
  cases p.defect? <;> simp

theorem ofText_eq_ok {s : String} {p : Program} :
    ofText s = .ok p ↔
      ∃ j, Json.parse? s = some j ∧ decode.run j = some p ∧ p.defect? = none := by
  unfold ofText
  cases parsed : Json.parse? s with
  | none => simp
  | some j =>
    unfold ofJson
    cases decoded : decode.run j with
    | none => simp [decoded]
    | some q =>
      simp only [checked_eq_ok, decoded, Option.some.injEq, exists_eq_left']
      constructor
      · rintro ⟨sound, rfl⟩
        exact ⟨rfl, sound⟩
      · rintro ⟨rfl, sound⟩
        exact ⟨sound, rfl⟩

/-- The document in the form in which programs are written. -/
def normalForm (s : String) : Except LoadError String := (ofText s).map fun p => p.encode.render

/-- A program that was read is read again from the text that it is written as. -/
theorem ofText_render {s : String} {p : Program} (accepted : ofText s = .ok p)
    (noDouble : ∀ c ∈ p.constants, ∀ d, c ≠ .double d) :
    ofText p.encode.render = .ok p ∧ (normalForm s >>= normalForm) = normalForm s ∧
      ∀ q, ofText p.encode.render = .ok q → q.analyze = p.analyze := by
  obtain ⟨j, -, decoded, sound⟩ := ofText_eq_ok.1 accepted
  have again : ofText p.encode.render = .ok p :=
    ofText_eq_ok.2 ⟨p.encode, Json.parse?_render _, keeps noDouble j decoded, sound⟩
  have normal : normalForm s = .ok p.encode.render := by
    rw [normalForm, accepted]
    rfl
  refine ⟨again, ?_, fun q read => ?_⟩
  · rw [normal]
    change normalForm p.encode.render = _
    rw [normalForm, again]
    rfl
  · rw [again] at read
    cases read
    rfl

/-- A document that leaves out what has a default, and gives the fields of the graph as an array.
Its routine returns the constant `null`. -/
def shortDocument : Json :=
  let value := Json.record
    [("kind", .case "literal" (.text "null")), ("constant", .text "null"), ("mask", .nat 1)]
  let block := Json.record
    [("ordinal", .nat 3),
     ("statements", .array [.record [("kind", .case "return" value)],
       .record [("kind", .case "return" .null)]])]
  .record
    [("symbols", .record [("routines", .array [.record [("name", .text "main")]])]),
     ("routines", .array [.record
       [("symbol", .nat 0), ("cfg", .array [.nat 3, .nat 3, .array [block]])]])]

def shortProgram : Program :=
  let value : Expr := ⟨.literal .null, none, ⟨1⟩, .reading, some .null, none⟩
  { symbols := ⟨[], [⟨"main", .function, none, [], false, false, none, none, ⟨0, 0⟩⟩]⟩
    routines :=
      [{ symbol := 0
         graph := some
          { start := 3
            exit := 3
            blocks := [⟨3, .plain, [⟨.return (some value), none⟩, ⟨.return none, none⟩], none⟩]
            labels := []
            unreachable := [] }
         registry := .empty }] }

theorem decode_shortDocument : decode.run shortDocument = some shortProgram := rfl

theorem shortProgram_sound : shortProgram.defect? = none := by
  simp [defect?, firstDefect?, Routine.defect?, Routine.graphDefect?, shortProgram,
    SymbolTable.routine?, Graph.isSorted, ascending, Graph.missingBlock?, Graph.references,
    Graph.block?, bisect]

theorem shortProgram_noDouble : ∀ c ∈ shortProgram.constants, ∀ d, c ≠ .double d := by
  simp [constants, shortProgram, Node.entered_eq, Node.children, Statement.parts, Form.parts,
    Node.constants]

theorem shortProgram_reread :
    ofText shortDocument.render = .ok shortProgram ∧
      (∀ c ∈ shortProgram.constants, ∀ d, c ≠ .double d) ∧
      ofText shortProgram.encode.render = .ok shortProgram := by
  have accepted : ofText shortDocument.render = .ok shortProgram := ofText_eq_ok.2
    ⟨shortDocument, Json.parse?_render _, decode_shortDocument, shortProgram_sound⟩
  exact ⟨accepted, shortProgram_noDouble, (ofText_render accepted shortProgram_noDouble).1⟩

end Program

end FlowLint
