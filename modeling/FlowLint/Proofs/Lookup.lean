import FlowLint.Proofs.Document.Program
import FlowLint.Proofs.Graph.Correspondence
import FlowLint.Proofs.Program.Defect
import FlowLint.Proofs.Symbol.Arity

/-!
Lookups that cannot fail. Once a document is accepted, each block exists that the search comes to or
that the walk is to visit, each routine that is analysed is declared, and no count of arguments
falls below zero, whatever else the document says.
-/

namespace FlowLint

namespace Graph.Sound

variable {g : Graph}

theorem exists_block? (sound : g.Sound) {id : Nat} (reached : g.Reachable id) :
    ∃ b, g.block? id = some b := by
  obtain ⟨b, listed, same⟩ := sound.mem_ordinals_of_reachable reached
  exact ⟨b, (block?_eq_some_iff sound.sorted).2 ⟨listed, same⟩⟩

theorem exists_of_pending (sound : g.Sound) {s : Search}
    (turns : Relation.ReflTransGen (Search.Turn g) (.init g) s) {id : Nat}
    (waits : id ∈ s.pending) : ∃ b, g.block? id = some b := by
  have inv := Search.steps_inv sound.sorted (Search.init_inv g) (Search.steps_of_turns turns)
  exact sound.exists_block? (inv.reachable id (.inr waits))

/-- The blocks that are visited are those of the planned order, none of which is passed over. -/
theorem map_order (sound : g.Sound) : g.plan.order.map g.block? = g.reachableBlocks.map some := by
  have exist : ∀ id ∈ g.plan.order, ∃ b, g.block? id = some b := by
    intro id planned
    exact sound.exists_block? ((mem_order_iff sound.sorted).1 planned)
  rw [reachableBlocks]
  generalize g.plan.order = order at exist
  induction order with
  | nil => rfl
  | cons id rest ih =>
    obtain ⟨b, found⟩ := exist id List.mem_cons_self
    have later := ih fun other member => exist other (List.mem_cons_of_mem id member)
    rw [List.map_cons, List.filterMap_cons_some found, List.map_cons, found, later]

end Graph.Sound

namespace Program

/-- The lookups that the analysis of an accepted program relies on: each turn of a search is about a
block that exists, the search comes to its end, the walk visits all that is planned, each routine is
declared, and the arguments of each declared routine can be counted. -/
theorem lookups_succeed {text : String} {p : Program} (accepted : ofText text = .ok p) :
    (∀ r ∈ p.routines, ∀ g, r.graph = some g →
      (∀ s id rest, Relation.ReflTransGen (Search.Turn g) (.init g) s → s.pending = id :: rest →
        ∃ b, g.block? id = some b) ∧
      (Relation.ReflTransGen (Search.Turn g) (.init g) ((Search.init g).run g) ∧
        ((Search.init g).run g).pending = []) ∧
      g.plan.order.map g.block? = g.reachableBlocks.map some) ∧
    (∀ r ∈ p.routines, ∃ symbol, p.symbols.routine? r.symbol = some symbol) ∧
    ∀ symbol ∈ p.symbols.routines, Arity.count symbol.parameters = some symbol.arity := by
  obtain ⟨_, -, -, unharmed⟩ := ofText_eq_ok.1 accepted
  have valid := defect?_eq_none_iff.1 unharmed
  refine ⟨fun r listed g body => ⟨?_, Search.run_turns g _, ?_⟩, valid.declared, ?_⟩
  · intro s id rest turns waiting
    apply (valid.sound r listed g body).exists_of_pending turns
    rw [waiting]
    exact List.mem_cons_self
  · exact (valid.sound r listed g body).map_order
  · intro symbol _
    exact Arity.count_eq symbol.parameters

/-- A loop around two blocks, a block that control cannot reach, and a method of a class that is not
declared. Of its parameters, one more than the first is implicit, but not in front. -/
def loopDocument : Json :=
  let jump (kind : String) (target : Nat) : Json := .case kind (.record [("target", .nat target)])
  let block (ordinal : Nat) (leaving : List (String × Json)) : Json :=
    .record (("ordinal", .nat ordinal) :: leaving)
  let parameter (ordinal : Nat) (flags : List String) : Json :=
    .record ([("name", .text "p"), ("ordinal", .nat ordinal)] ++ flags.map fun f => (f, .bool true))
  let method := Json.record
    [("name", .text "run"), ("kind", .text "method"), ("containing_type", .nat 9),
     ("parameters", .array
       [parameter 0 ["is_implicit"], parameter 1 [], parameter 2 ["is_implicit"],
        parameter 3 ["is_optional"]])]
  let graph := Json.record
    [("start", .nat 2), ("exit", .nat 7),
     ("blocks", .array
       [block 2 [("edge", jump "simple" 5)], block 5 [("edge", jump "loop_back" 2)], block 7 []])]
  .record
    [("symbols", .record [("routines", .array [method])]),
     ("routines", .array [.record [("symbol", .nat 0), ("cfg", graph)]])]

def loopGraph : Graph :=
  { start := 2
    exit := 7
    blocks :=
      [⟨2, .plain, [], some (.jump 5)⟩, ⟨5, .plain, [], some (.loopBack 2)⟩, ⟨7, .plain, [], none⟩]
    labels := []
    unreachable := [] }

theorem loopGraph_sound : loopGraph.Sound := ⟨by decide, by decide⟩

def loopProgram : Program :=
  { symbols :=
      ⟨[], [⟨"run", .method, some 9,
        [⟨"p", 0, false, false, true, false, none⟩, ⟨"p", 1, false, false, false, false, none⟩,
         ⟨"p", 2, false, false, true, false, none⟩, ⟨"p", 3, true, false, false, false, none⟩],
        false, false, none, none, ⟨0, 0⟩⟩]⟩
    routines := [⟨0, some loopGraph, .empty⟩] }

theorem loopProgram_valid : loopProgram.Valid where
  declared := by simp [loopProgram, SymbolTable.routine?]
  distinct := List.nodup_singleton _
  sound := by simp [loopProgram, loopGraph_sound]

theorem decode_loopDocument : decode.run loopDocument = some loopProgram := rfl

theorem loopProgram_lookups :
    ofText loopDocument.render = .ok loopProgram ∧
      loopGraph.plan.order.map loopGraph.block? = loopGraph.reachableBlocks.map some ∧
      ∃ symbol ∈ loopProgram.symbols.routines,
        Arity.count symbol.parameters = some ⟨2, some 3⟩ := by
  have accepted : ofText loopDocument.render = .ok loopProgram := ofText_eq_ok.2
    ⟨loopDocument, Json.parse?_render _, decode_loopDocument,
      defect?_eq_none_iff.2 loopProgram_valid⟩
  obtain ⟨graphs, -, counts⟩ := lookups_succeed accepted
  obtain ⟨-, -, visited⟩ := graphs _ (List.mem_singleton.2 rfl) loopGraph rfl
  exact ⟨accepted, visited, _, List.mem_singleton.2 rfl, counts _ (List.mem_singleton.2 rfl)⟩

end Program

end FlowLint
