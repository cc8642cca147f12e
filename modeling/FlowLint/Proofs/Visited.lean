import FlowLint.Proofs.Graph.Address
import FlowLint.Proofs.Walk

/-!
What a walk visits. A visitor that only walks on comes to all expressions and references to types
in the blocks that control can reach, to each of them once, in the order of their addresses.
-/

namespace FlowLint

def Visitor.recorder : Visitor (List (Part Expr)) where
  expr e walk seen := walk (seen ++ [.expr e])
  type t walk seen := walk (seen ++ [.type t])

def Graph.visited (g : Graph) : List (Part Expr) :=
  Visitor.recorder.visitAll (g.reachableBlocks.map .block) []

def Node.part? : Node → Option (Part Expr)
  | expr e => some (.expr e)
  | type t => some (.type t)
  | _ => none

theorem Node.part?_eq_some_iff {n : Node} {part : Part Expr} :
    n.part? = some part ↔ n = ofPart part := by
  cases n <;> cases part <;> simp [part?, ofPart]

namespace Visitor

theorem recorder_look (n : Node) (walk : List (Part Expr) → List (Part Expr))
    (seen : List (Part Expr)) : recorder.look n walk seen = walk (seen ++ n.part?.toList) := by
  cases n <;> simp [look, recorder, Node.part?]

theorem recorder_visitAll_of {nodes : List Node}
    (each : ∀ n ∈ nodes, ∀ seen, recorder.visit n seen = seen ++ n.entered.filterMap Node.part?)
    (seen : List (Part Expr)) :
    recorder.visitAll nodes seen =
      seen ++ (nodes.flatMap Node.entered).filterMap Node.part? := by
  induction nodes generalizing seen with
  | nil => simp
  | cons n rest ih =>
    rw [visitAll_cons, each n List.mem_cons_self,
      ih fun m member => each m (List.mem_cons_of_mem n member)]
    simp

theorem recorder_visit (n : Node) (seen : List (Part Expr)) :
    recorder.visit n seen = seen ++ n.entered.filterMap Node.part? := by
  induction n using Node.induction generalizing seen with
  | step n ih =>
    rw [visit_eq, recorder_look, recorder_visitAll_of ih, Node.entered_eq, List.append_assoc]
    cases part : n.part? <;> simp [part]

end Visitor

namespace Graph

variable {g : Graph}

theorem visited_eq (g : Graph) : g.visited = g.entered.filterMap Node.part? := by
  rw [visited, Visitor.recorder_visitAll_of fun n _ => Visitor.recorder_visit n, List.flatMap_map]
  rfl

/-- The part stands at the address, in a block that control can reach. -/
def Holds (g : Graph) (a : Address) (part : Part Expr) : Prop := g.Occurs a (.ofPart part)

def partAt? (entry : Address × Node) : Option (Address × Part Expr) :=
  entry.2.part?.map (entry.1, ·)

theorem partAt?_eq_some_iff {entry : Address × Node} {x : Address × Part Expr} :
    partAt? entry = some x ↔ entry = (x.1, .ofPart x.2) := by
  obtain ⟨a, n⟩ := entry
  obtain ⟨b, part⟩ := x
  simp [partAt?, Node.part?_eq_some_iff, and_comm]

def places (g : Graph) : List (Address × Part Expr) := g.located.filterMap partAt?

theorem map_snd_places (g : Graph) : g.places.map Prod.snd = g.visited := by
  rw [visited_eq, ← map_snd_located, places, List.map_filterMap, List.filterMap_map]
  congr 1
  funext entry
  simp [partAt?, Function.comp_def]

theorem mem_places_iff (sorted : Ascending g.blocks) {a : Address} {part : Part Expr} :
    (a, part) ∈ g.places ↔ g.Holds a part := by
  simp only [places, List.mem_filterMap, partAt?_eq_some_iff, exists_eq_right]
  exact mem_located_iff sorted

theorem places_pairwise (sorted : Ascending g.blocks) :
    g.places.Pairwise fun x y => x.1.Before y.1 := by
  refine (located_pairwise sorted).filterMap _ fun x y before x' first y' second => ?_
  rw [partAt?_eq_some_iff] at first second
  rw [first, second] at before
  exact before

theorem places_nodup (sorted : Ascending g.blocks) : (g.places.map Prod.fst).Nodup :=
  List.pairwise_map.2 ((places_pairwise sorted).imp Address.Before.ne)

theorem mem_partsBelow_iff {n : Node} {a b : Address} {part : Part Expr} :
    (b, part) ∈ (n.located.map fun inner =>
        ((⟨a.block, a.path ++ inner.1⟩ : Address), inner.2)).filterMap partAt? ↔
      ∃ path, n.Occurs path (.ofPart part) ∧ b = ⟨a.block, a.path ++ path⟩ := by
  simp only [List.mem_filterMap, partAt?_eq_some_iff, exists_eq_right, List.mem_map, Prod.exists,
    Prod.mk.injEq]
  constructor
  · rintro ⟨path, m, inner, rfl, rfl⟩
    exact ⟨path, Node.mem_located_iff.1 inner, rfl⟩
  · rintro ⟨path, inner, rfl⟩
    exact ⟨path, _, Node.mem_located_iff.2 inner, rfl, rfl⟩

/-- The parts in a node are listed one behind the other. -/
theorem places_of_occurs (sorted : Ascending g.blocks) {a : Address} {n : Node}
    (occurs : g.Occurs a n) :
    ∃ before subtree after, g.places = before ++ subtree ++ after ∧
      ∀ x, x ∈ subtree ↔ x ∈ g.places ∧ (x.1 = a ∨ x.1.Inside a) := by
  obtain ⟨before, after, split⟩ := (infix_located sorted occurs).filterMap partAt?
  refine ⟨before, _, after, split.symm, fun x => ?_⟩
  obtain ⟨b, part⟩ := x
  rw [mem_partsBelow_iff, mem_places_iff sorted, Address.eq_or_inside_iff]
  constructor
  · rintro ⟨path, inner, rfl⟩
    exact ⟨(occurs_append_iff sorted occurs).2 inner, path, rfl⟩
  · rintro ⟨holds, path, rfl⟩
    exact ⟨path, (occurs_append_iff sorted occurs).1 holds, rfl⟩

/-- A walk over the planned order comes to each expression and each reference to a type in the
blocks that control can reach, to none of them twice and to nothing else, in the order of their
addresses. So a node comes before all that is in it, what is in a node comes without
interruption, and what is in an earlier slot comes before what is in a later one. -/
theorem visited_exact (sound : g.Sound) :
    ∃ places : List (Address × Part Expr),
      places.map Prod.snd = g.visited ∧
      (∀ a part, (a, part) ∈ places ↔ g.Holds a part) ∧
      (places.map Prod.fst).Nodup ∧
      (places.Pairwise fun x y => x.1.Before y.1) ∧
      ∀ a n, g.Occurs a n →
        ∃ before subtree after, places = before ++ subtree ++ after ∧
          ∀ x, x ∈ subtree ↔ x ∈ places ∧ (x.1 = a ∨ x.1.Inside a) :=
  ⟨g.places, g.map_snd_places, fun _ _ => mem_places_iff sound.sorted, places_nodup sound.sorted,
    places_pairwise sound.sorted, fun _ _ => places_of_occurs sound.sorted⟩

def evalLoopText : Expr :=
  ⟨.literal (.text "f();"), none, .void, ⟨true, false, false, false⟩, none, none⟩

def evalLoopPlace : Address := ⟨1, [⟨2, 0, 0⟩, ⟨0, 0, 0⟩, ⟨0, 0, 0⟩]⟩

theorem evalLoop_holds : Context.evalLoop.Holds evalLoopPlace (.expr evalLoopText) := by
  have reached : Context.evalLoop.Reachable 1 :=
    .single ⟨_, List.mem_cons_self, rfl, _, rfl, List.mem_singleton.2 rfl⟩
  refine ⟨_, List.mem_cons_of_mem _ List.mem_cons_self, rfl, reached, ?_⟩
  exact .within (.statement rfl) (.within (.ofStatement (.echo rfl))
    (.within (.ofExpr .code) .here))

theorem evalLoop_visited :
    Context.evalLoop.Sound ∧ Context.evalLoop.Holds evalLoopPlace (.expr evalLoopText) ∧
      .expr evalLoopText ∈ Context.evalLoop.visited := by
  obtain ⟨places, visited, places_iff, -⟩ := visited_exact Context.evalLoop_sound
  refine ⟨Context.evalLoop_sound, evalLoop_holds, ?_⟩
  rw [← visited]
  exact List.mem_map_of_mem ((places_iff _ _).2 evalLoop_holds)

end Graph

end FlowLint
