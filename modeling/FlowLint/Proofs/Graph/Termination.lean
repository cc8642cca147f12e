import FlowLint.Proofs.Graph.Reached
import FlowLint.Proofs.Graph.Region
import Mathlib.Data.List.Flatten
import Mathlib.Data.List.Perm.Subperm

/-!
How long the search goes on. Each turn takes one block off those that are pending, and only an edge
that is followed adds to them. No edge is followed twice, so that the edges of the blocks that
control can reach bound the number of turns, whatever cycles they form.
-/

namespace FlowLint

namespace Block

def targets (b : Block) : List Nat := b.edge.toList.flatMap Edge.targets

def constructs (b : Block) : List TryConstruct := (b.edge.bind Edge.construct?).toList

end Block

/-- Where control can go from the blocks that it can reach, as often as their edges lead there. -/
noncomputable def Graph.reachedTargets (g : Graph) : List Nat :=
  (g.reached fun _ => True).flatMap Block.targets

/-- What is made of some members of a list, each taken once, is no longer than what is made of the
whole list. -/
theorem length_flatMap_le_of_subset {α β : Type} {l m : List α} (distinct : l.Nodup)
    (subset : l ⊆ m) (f : α → List β) : (l.flatMap f).length ≤ (m.flatMap f).length := by
  obtain ⟨listed, perm, sublist⟩ := List.subperm_of_subset distinct subset
  calc
    (l.flatMap f).length = (listed.flatMap f).length := (perm.symm.flatMap_right f).length_eq
    _ ≤ (m.flatMap f).length := (sublist.flatMap f).length_le

namespace Search

variable {g : Graph} {n : Nat} {followed : List Block} {s : Search} {id : Nat} {rest : List Nat}

/-- After `n` turns, in which the edges of the listed blocks were followed one after another, the
search has come to the state. -/
inductive After (g : Graph) : Nat → List Block → Search → Prop where
  | start : After g 0 [] (init g)
  | pass {n : Nat} {followed : List Block} {s : Search} {id : Nat} {rest : List Nat} :
      After g n followed s → s.pending = id :: rest → id ∈ s.visited →
      After g (n + 1) followed (s.look g id rest)
  | stop {n : Nat} {followed : List Block} {s : Search} {id : Nat} {rest : List Nat} :
      After g n followed s → s.pending = id :: rest → id ∉ s.visited → edge? g id = none →
      After g (n + 1) followed (s.look g id rest)
  | follow {n : Nat} {followed : List Block} {s : Search} {id : Nat} {rest : List Nat} {b : Block}
      {e : Edge} :
      After g n followed s → s.pending = id :: rest → id ∉ s.visited → g.block? id = some b →
      b.edge = some e → After g (n + 1) (followed ++ [b]) (s.look g id rest)

/-- The turns taken and those still to come against the targets of the edges that were followed. -/
structure Account (g : Graph) (n : Nat) (followed : List Block) (s : Search) : Prop where
  turns : n + s.pending.length ≤ 1 + (followed.flatMap Block.targets).length
  distinct : (followed.map Block.ordinal).Nodup
  visited : ∀ b ∈ followed, b ∈ g.blocks ∧ b.ordinal ∈ s.visited
  reachable : ∀ id, id ∈ s.visited ∨ id ∈ s.pending → g.Reachable id
  recorded : s.regions = (followed.flatMap Block.constructs).foldl Regions.recordTry .empty

theorem init_account (g : Graph) : Account g 0 [] (init g) where
  turns := Nat.le_refl 1
  distinct := List.nodup_nil
  visited := by simp
  reachable := (init_inv g).reachable
  recorded := rfl

theorem Account.reachable_of_waiting (account : Account g n followed s)
    (waiting : s.pending = id :: rest) {a : Nat} (held : a ∈ s.visited ∨ a = id ∨ a ∈ rest) :
    g.Reachable a := by
  apply account.reachable a
  rw [waiting, List.mem_cons]
  exact held

theorem Account.drop (account : Account g n followed s) (waiting : s.pending = id :: rest)
    {visited : List Nat} (kept : s.visited ⊆ visited)
    (among : ∀ a ∈ visited, a = id ∨ a ∈ s.visited) :
    Account g (n + 1) followed ⟨visited, rest, s.regions⟩ where
  turns := by
    have turns := account.turns
    rw [waiting, List.length_cons] at turns
    show n + 1 + rest.length ≤ 1 + (followed.flatMap Block.targets).length
    omega
  distinct := account.distinct
  visited := fun b member => ⟨(account.visited b member).1, kept (account.visited b member).2⟩
  reachable := by
    intro a held
    apply account.reachable_of_waiting waiting
    rcases held with held | held
    · exact (among a held).elim (fun same => .inr (.inl same)) .inl
    · exact .inr (.inr held)
  recorded := account.recorded

theorem Account.pass (account : Account g n followed s) (waiting : s.pending = id :: rest)
    (known : id ∈ s.visited) : Account g (n + 1) followed (s.look g id rest) := by
  rw [look, if_pos known]
  exact account.drop waiting (List.Subset.refl s.visited) fun a => .inr

theorem Account.stop (account : Account g n followed s) (waiting : s.pending = id :: rest)
    (fresh : id ∉ s.visited) (ends : edge? g id = none) :
    Account g (n + 1) followed (s.look g id rest) := by
  rw [look_fresh fresh, ends]
  exact account.drop waiting (List.subset_cons_self id s.visited) fun a => List.mem_cons.1

theorem leads_of_edge? {e : Edge} (leaves : edge? g id = some e) {target : Nat}
    (among : target ∈ e.targets) : g.Leads id target := by
  obtain ⟨b, found, edge⟩ := Option.bind_eq_some_iff.1 leaves
  obtain ⟨member, same⟩ := bisect_sound found
  exact ⟨b, member, same, e, edge, among⟩

theorem Account.not_followed (account : Account g n followed s) (fresh : id ∉ s.visited) :
    id ∉ followed.map Block.ordinal := by
  intro repeated
  rcases List.mem_map.1 repeated with ⟨b, earlier, rfl⟩
  exact fresh (account.visited b earlier).2

theorem Account.follow (account : Account g n followed s) (waiting : s.pending = id :: rest)
    (fresh : id ∉ s.visited) {b : Block} {e : Edge} (found : g.block? id = some b)
    (leaves : b.edge = some e) : Account g (n + 1) (followed ++ [b]) (s.look g id rest) := by
  have edge : edge? g id = some e := by rw [edge?, found, Option.bind_some, leaves]
  rcases bisect_sound found with ⟨member, same⟩
  rw [look_fresh fresh, edge]
  constructor
  case turns =>
    have turns := account.turns
    rw [waiting, List.length_cons] at turns
    -- of the targets, those that were visited before do not become pending
    have fewer := List.length_filter_le (fun a => decide (a ∉ id :: s.visited)) e.targets
    have targets : b.targets = e.targets := by simp [Block.targets, leaves]
    simp only [Option.toList_some, List.flatMap_singleton, List.length_append, List.flatMap_append,
      targets]
    omega
  case distinct =>
    rw [List.map_append, List.map_singleton, same, ← List.concat_eq_append, List.nodup_concat]
    exact ⟨account.not_followed fresh, account.distinct⟩
  case visited =>
    intro c listed
    rcases List.mem_append.1 listed with earlier | last
    · exact ⟨(account.visited c earlier).1, List.mem_cons_of_mem id (account.visited c earlier).2⟩
    · rw [List.mem_singleton.1 last, same]
      exact ⟨member, List.mem_cons_self⟩
  case reachable =>
    have reached : g.Reachable id := account.reachable_of_waiting waiting (.inr (.inl rfl))
    intro a held
    rcases held with held | held
    · rcases List.mem_cons.1 held with rfl | held
      · exact reached
      · exact account.reachable a (.inl held)
    · rcases List.mem_append.1 held with target | held
      · rw [Option.toList_some, List.flatMap_singleton] at target
        exact reached.tail (leads_of_edge? edge (List.mem_of_mem_filter target))
      · exact account.reachable_of_waiting waiting (.inr (.inr held))
  case recorded =>
    rw [List.flatMap_append, List.foldl_append, ← account.recorded, List.flatMap_singleton,
      Block.constructs, leaves]
    cases e with
    | guarded t => rfl
    | _ => rfl

theorem After.account (after : After g n followed s) : Account g n followed s := by
  induction after with
  | start => exact init_account g
  | pass _ waiting known ih => exact ih.pass waiting known
  | stop _ waiting fresh ends ih => exact ih.stop waiting fresh ends
  | follow _ waiting fresh found leaves ih => exact ih.follow waiting fresh found leaves

theorem After.next (after : After g n followed s) (waiting : s.pending = id :: rest) :
    ∃ more, After g (n + 1) more (s.look g id rest) := by
  by_cases known : id ∈ s.visited
  · exact ⟨followed, after.pass waiting known⟩
  · cases leaves : edge? g id with
    | none => exact ⟨followed, after.stop waiting known leaves⟩
    | some e =>
      obtain ⟨b, found, edge⟩ := Option.bind_eq_some_iff.1 leaves
      exact ⟨followed ++ [b], after.follow waiting known found edge⟩

theorem After.turn (after : After g n followed s) {t : Search} (turn : Turn g s t) :
    ∃ more, After g (n + 1) more t := by
  cases turn with
  | look waiting => exact after.next waiting

theorem exists_after {t : Search} (turns : Relation.ReflTransGen (Turn g) (init g) t) :
    ∃ n followed, After g n followed t := by
  induction turns with
  | refl => exact ⟨0, [], .start⟩
  | tail _ turn ih =>
    obtain ⟨n, followed, after⟩ := ih
    exact ⟨n + 1, after.turn turn⟩

theorem After.mem_reached (after : After g n followed s) {b : Block} (member : b ∈ followed) :
    b ∈ g.reached fun _ => True := by
  have listed := after.account.visited b member
  exact Graph.mem_reached_iff.2 ⟨listed.1, after.account.reachable _ (.inl listed.2), trivial⟩

theorem After.turns_le (after : After g n followed s) : n ≤ 1 + g.reachedTargets.length := by
  have distinct : followed.Nodup := List.Nodup.of_map Block.ordinal after.account.distinct
  calc
    n ≤ n + s.pending.length := Nat.le_add_right n _
    _ ≤ 1 + (followed.flatMap Block.targets).length := after.account.turns
    _ ≤ 1 + g.reachedTargets.length := by
      apply Nat.add_le_add_left
      exact length_flatMap_le_of_subset distinct (fun _ => after.mem_reached) Block.targets

end Search

namespace Graph

/-- In every graph, the search comes to an end with nothing pending, and it cannot go on forever.
At any time, no block has had its edge followed twice, each of those that had it is one that control
can reach, the regions are those of the constructs at these edges, each recorded once, and there
were at most as many turns as the blocks that control can reach have targets, and one more. -/
theorem search_terminates (g : Graph) :
    (∃ n followed, Search.After g n followed ((Search.init g).run g) ∧
      ((Search.init g).run g).pending = []) ∧
    (¬∃ states : Nat → Search, states 0 = .init g ∧
      ∀ n, Search.Turn g (states n) (states (n + 1))) ∧
    ∀ n followed s, Search.After g n followed s →
      (followed.map Block.ordinal).Nodup ∧
      (∀ b ∈ followed, b ∈ g.reached fun _ => True) ∧
      s.regions = (followed.flatMap Block.constructs).foldl Regions.recordTry .empty ∧
      n ≤ 1 + g.reachedTargets.length := by
  refine ⟨?_, ?_, fun n followed s after => ?_⟩
  · obtain ⟨turns, done⟩ := Search.run_turns g (.init g)
    obtain ⟨n, followed, after⟩ := Search.exists_after turns
    exact ⟨n, followed, after, done⟩
  · intro ⟨states, first, turns⟩
    have accounted (n : Nat) : ∃ followed, Search.After g n followed (states n) := by
      induction n with
      | zero => exact ⟨[], first ▸ .start⟩
      | succ n ih =>
        obtain ⟨followed, after⟩ := ih
        exact after.turn (turns n)
    -- one turn more than there can be
    obtain ⟨followed, after⟩ := accounted (2 + g.reachedTargets.length)
    have := after.turns_le
    omega
  · exact ⟨after.account.distinct, fun b => after.mem_reached, after.account.recorded,
      after.turns_le⟩

def spinning : Graph :=
  { start := 0
    exit := 5
    blocks :=
      [⟨0, .start, [], some (.guarded ⟨0, [3, 3], none, 5⟩)⟩,
       ⟨3, .plain, [], some (.loopBack 0)⟩,
       ⟨5, .exit, [], some (.guarded ⟨3, [], some 5, 0⟩)⟩]
    labels := []
    unreachable := [] }

theorem spinning_ends :
    ∃ n followed, Search.After spinning n followed ((Search.init spinning).run spinning) ∧
      (followed.map Block.ordinal).Nodup ∧ n ≤ 9 := by
  obtain ⟨⟨n, followed, after, -⟩, -, accounts⟩ := search_terminates spinning
  obtain ⟨distinct, -, -, bound⟩ := accounts n followed _ after
  refine ⟨n, followed, after, distinct, Nat.le_trans bound ?_⟩
  exact Nat.add_le_add_left (List.filter_sublist.flatMap Block.targets).length_le 1

end Graph

end FlowLint
