import FlowLint.Analysis
import FlowLint.Proofs.Graph.Plan
import FlowLint.Proofs.Graph.Slot

/-!
Addresses. Every node in a graph has an address, its block and the slots that lead to it from there.
In the order of addresses, a node comes before all that is in it, and what is in an earlier slot
before what is in a later one. A walk enters the nodes in that order.
-/

namespace FlowLint

/-- The slots that lead from a node to one in it. -/
abbrev Path : Type := List Slot

namespace Path

def Inside (p outer : Path) : Prop := ∃ slot rest, p = outer ++ slot :: rest

inductive Before : Path → Path → Prop where
  | outer {p q : Path} : Inside q p → Before p q
  | siblings {common p q : Path} {s t : Slot} :
      s.Before t → Before (common ++ s :: p) (common ++ t :: q)

theorem before_cons {p q : Path} (slot : Slot) (before : Before p q) :
    Before (slot :: p) (slot :: q) := by
  cases before with
  | outer inside =>
    obtain ⟨next, rest, rfl⟩ := inside
    exact .outer ⟨next, rest, rfl⟩
  | @siblings common p q s t less =>
    have deeper : Before ((slot :: common) ++ s :: p) ((slot :: common) ++ t :: q) := .siblings less
    exact deeper

theorem before_of_slot {p q : Path} {s t : Slot} (less : s.Before t) :
    Before (s :: p) (t :: q) := by
  have apart : Before ([] ++ s :: p) ([] ++ t :: q) := .siblings less
  exact apart

theorem Before.ne {p q : Path} (before : Before p q) : p ≠ q := by
  intro same
  cases before with
  | outer inside =>
    obtain ⟨slot, rest, longer⟩ := inside
    have lengths := congrArg List.length (same.trans longer)
    simp only [List.length_append, List.length_cons] at lengths
    rw [same] at lengths
    omega
  | siblings less =>
    obtain ⟨rfl, -⟩ := List.cons.inj (List.append_cancel_left same)
    unfold Slot.Before at less
    omega

end Path

structure Address where
  block : Nat
  path : Path
  deriving DecidableEq, Repr

namespace Address

def Inside (a outer : Address) : Prop := a.block = outer.block ∧ a.path.Inside outer.path

theorem eq_or_inside_iff {a outer : Address} :
    a = outer ∨ a.Inside outer ↔ ∃ rest, a = ⟨outer.block, outer.path ++ rest⟩ := by
  constructor
  · rintro (rfl | ⟨same, slot, rest, longer⟩)
    · exact ⟨[], by rw [List.append_nil]⟩
    · exact ⟨slot :: rest, by rw [← same, ← longer]⟩
  · rintro ⟨rest, rfl⟩
    cases rest with
    | nil => exact .inl (by rw [List.append_nil])
    | cons slot rest => exact .inr ⟨rfl, slot, rest, rfl⟩

/-- Blocks come as they are numbered. -/
def Before (a b : Address) : Prop := a.block < b.block ∨ a.block = b.block ∧ a.path.Before b.path

theorem Before.ne {a b : Address} (before : a.Before b) : a ≠ b := by
  rintro rfl
  rcases before with less | ⟨-, before⟩
  · exact Nat.lt_irrefl _ less
  · exact before.ne rfl

end Address

theorem infix_flatMap {α β : Type} (f : α → List β) {l : List α} {a : α} (member : a ∈ l) :
    f a <:+: l.flatMap f := by
  rw [List.flatMap_def]
  exact List.infix_of_mem_flatten (List.mem_map_of_mem member)

namespace Node

inductive Occurs : Node → Path → Node → Prop where
  | here {n : Node} : Occurs n [] n
  | within {n c m : Node} {slot : Slot} {path : Path} :
      n.Holds slot c → Occurs c path m → Occurs n (slot :: path) m

theorem Occurs.append {n k m : Node} {path rest : Path} (outer : n.Occurs path k)
    (inner : k.Occurs rest m) : n.Occurs (path ++ rest) m := by
  induction outer with
  | here => exact inner
  | within holds _ ih => exact .within holds (ih inner)

theorem exists_of_occurs_append {n m : Node} {path rest : Path}
    (occurs : n.Occurs (path ++ rest) m) : ∃ k, n.Occurs path k ∧ k.Occurs rest m := by
  induction path generalizing n with
  | nil => exact ⟨n, .here, occurs⟩
  | cons slot path ih =>
    cases occurs with
    | within holds inner =>
      obtain ⟨k, outer, inner⟩ := ih inner
      exact ⟨k, .within holds outer, inner⟩

theorem mem_children_of_placed {n : Node} {entry : Slot × Node} (member : entry ∈ n.placed) :
    entry.2 ∈ n.children := by
  rw [← map_snd_placed]
  exact List.mem_map_of_mem member

/-- A node and all that is in it, from left to right, with the paths that lead there. -/
def located (n : Node) : List (Path × Node) :=
  ([], n) :: n.placed.attach.flatMap fun ⟨entry, _⟩ =>
    entry.2.located.map fun inner => (entry.1 :: inner.1, inner.2)
termination_by sizeOf n
decreasing_by exact sizeOf_child_lt (mem_children_of_placed ‹_›)

theorem located_eq (n : Node) :
    n.located = ([], n) :: n.placed.flatMap fun entry =>
      entry.2.located.map fun inner => (entry.1 :: inner.1, inner.2) := by
  rw [located, List.flatMap_subtype fun _ _ => rfl, List.unattach_attach]

theorem map_snd_located (n : Node) : n.located.map Prod.snd = n.entered := by
  induction n using Node.induction with
  | step n ih =>
    have inner : (n.placed.flatMap fun entry => entry.2.located.map Prod.snd) =
        n.children.flatMap entered := by
      rw [← map_snd_placed, List.flatMap_map]
      exact List.flatMap_congr fun entry member => ih _ (mem_children_of_placed member)
    rw [located_eq, entered_eq, ← inner]
    simp [List.map_flatMap, Function.comp_def]

theorem mem_located_iff {n m : Node} {path : Path} :
    (path, m) ∈ n.located ↔ n.Occurs path m := by
  induction n using Node.induction generalizing path with
  | step n ih =>
    rw [located_eq, List.mem_cons, List.mem_flatMap]
    constructor
    · rintro (here | ⟨⟨slot, c⟩, held, inner⟩)
      · cases here
        exact .here
      · obtain ⟨⟨rest, k⟩, located, same⟩ := List.mem_map.1 inner
        cases same
        exact .within (mem_placed_iff.1 held) ((ih c (mem_children_of_placed held)).1 located)
    · intro occurs
      cases occurs with
      | here => exact .inl rfl
      | within holds inner =>
        have held := mem_placed_iff.2 holds
        have located := (ih _ (mem_children_of_placed held)).2 inner
        exact .inr ⟨_, held, List.mem_map.2 ⟨_, located, rfl⟩⟩

/-- What a visit of the node enters is what occurs in it. -/
theorem mem_entered_iff_occurs {n m : Node} : m ∈ n.entered ↔ ∃ path, n.Occurs path m := by
  simp only [← map_snd_located, List.mem_map, Prod.exists, exists_eq_right, mem_located_iff]

theorem located_pairwise (n : Node) : n.located.Pairwise fun a b => a.1.Before b.1 := by
  induction n using Node.induction with
  | step n ih =>
    rw [located_eq, List.pairwise_cons, List.pairwise_flatMap]
    refine ⟨?_, ?_, ?_⟩
    · intro entry member
      obtain ⟨held, -, member⟩ := List.mem_flatMap.1 member
      obtain ⟨inner, -, rfl⟩ := List.mem_map.1 member
      exact .outer ⟨_, _, rfl⟩
    · intro held member
      rw [List.pairwise_map]
      exact (ih held.2 (mem_children_of_placed member)).imp (Path.before_cons held.1)
    · refine n.placed_pairwise.imp fun less => ?_
      simp only [List.mem_map]
      rintro - ⟨-, -, rfl⟩ - ⟨-, -, rfl⟩
      exact Path.before_of_slot less

theorem infix_located {n m : Node} {path : Path} (occurs : n.Occurs path m) :
    m.located.map (fun inner => (path ++ inner.1, inner.2)) <:+: n.located := by
  induction occurs with
  | here => simp
  | @within n c m slot path holds occurs ih =>
    have inChild := ih.map fun inner => (slot :: inner.1, inner.2)
    rw [List.map_map] at inChild
    have inFields := infix_flatMap (fun entry : Slot × Node =>
      entry.2.located.map fun inner => (entry.1 :: inner.1, inner.2)) (mem_placed_iff.2 holds)
    rw [located_eq n]
    exact List.infix_cons (inChild.trans inFields)

end Node

namespace Graph

variable {g : Graph}

/-- The node occurs at the address, in a block that control can reach. -/
def Occurs (g : Graph) (a : Address) (n : Node) : Prop :=
  ∃ b ∈ g.blocks, b.ordinal = a.block ∧ g.Reachable b.ordinal ∧ (Node.block b).Occurs a.path n

def located (g : Graph) : List (Address × Node) :=
  g.reachableBlocks.flatMap fun b =>
    (Node.block b).located.map fun inner => (⟨b.ordinal, inner.1⟩, inner.2)

theorem map_snd_located (g : Graph) : g.located.map Prod.snd = g.entered := by
  simp [located, entered, List.map_flatMap, Function.comp_def, ← Node.map_snd_located]

theorem mem_located_iff (sorted : Ascending g.blocks) {a : Address} {n : Node} :
    (a, n) ∈ g.located ↔ g.Occurs a n := by
  simp only [located, List.mem_flatMap, List.mem_map, mem_reachableBlocks_iff sorted]
  constructor
  · rintro ⟨b, ⟨listed, reached⟩, ⟨path, m⟩, inner, same⟩
    cases same
    exact ⟨b, listed, rfl, reached, Node.mem_located_iff.1 inner⟩
  · rintro ⟨b, listed, same, reached, occurs⟩
    refine ⟨b, ⟨listed, reached⟩, (a.path, n), Node.mem_located_iff.2 occurs, ?_⟩
    rw [same]

theorem located_pairwise (sorted : Ascending g.blocks) :
    g.located.Pairwise fun x y => x.1.Before y.1 := by
  rw [located, List.pairwise_flatMap]
  constructor
  · intro b _
    rw [List.pairwise_map]
    exact (Node.located_pairwise _).imp fun before => .inr ⟨rfl, before⟩
  · refine (reachableBlocks_ascending sorted).imp fun less => ?_
    simp only [List.mem_map]
    rintro - ⟨-, -, rfl⟩ - ⟨-, -, rfl⟩
    exact .inl less

theorem located_nodup (sorted : Ascending g.blocks) : (g.located.map Prod.fst).Nodup :=
  List.pairwise_map.2 ((located_pairwise sorted).imp Address.Before.ne)

theorem occurs_unique (sorted : Ascending g.blocks) {a : Address} {n m : Node}
    (first : g.Occurs a n) (second : g.Occurs a m) : n = m := by
  have same := List.inj_on_of_nodup_map (located_nodup sorted) ((mem_located_iff sorted).2 first)
    ((mem_located_iff sorted).2 second) rfl
  exact (Prod.mk.inj same).2

theorem occurs_append_iff (sorted : Ascending g.blocks) {a : Address} {rest : Path} {n m : Node}
    (outer : g.Occurs a n) : g.Occurs ⟨a.block, a.path ++ rest⟩ m ↔ n.Occurs rest m := by
  constructor
  · rintro ⟨b, listed, same, reached, occurs⟩
    obtain ⟨k, above, below⟩ := Node.exists_of_occurs_append occurs
    have found : g.Occurs a k := ⟨b, listed, same, reached, above⟩
    rwa [occurs_unique sorted outer found]
  · intro inner
    obtain ⟨b, listed, same, reached, occurs⟩ := outer
    exact ⟨b, listed, same, reached, occurs.append inner⟩

theorem infix_located (sorted : Ascending g.blocks) {a : Address} {n : Node}
    (occurs : g.Occurs a n) :
    n.located.map (fun inner => (⟨a.block, a.path ++ inner.1⟩, inner.2)) <:+: g.located := by
  obtain ⟨b, listed, same, reached, occurs⟩ := occurs
  have inBlock := (Node.infix_located occurs).map fun inner =>
    ((⟨b.ordinal, inner.1⟩ : Address), inner.2)
  rw [List.map_map, same] at inBlock
  have inGraph := infix_flatMap (fun b : Block =>
    (Node.block b).located.map fun inner => ((⟨b.ordinal, inner.1⟩ : Address), inner.2))
    ((mem_reachableBlocks_iff sorted).2 ⟨listed, reached⟩)
  rw [same] at inGraph
  exact inBlock.trans inGraph

end Graph

end FlowLint
