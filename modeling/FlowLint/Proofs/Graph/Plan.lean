import FlowLint.Graph.Search
import FlowLint.Program.Defect
import FlowLint.Proofs.Graph.Lookup
import FlowLint.Proofs.Ordered
import Mathlib.Logic.Relation

/-!
What the search finds. The planned order lists the blocks that control can reach, and the planned
regions are those of the constructs among them; nothing depends on the order of discovery.
-/

namespace FlowLint

/-- What the search relies on: ordinals ascend, and each block that is referred to exists. -/
structure Graph.Sound (g : Graph) : Prop where
  sorted : Ascending g.blocks
  exist : ∀ id ∈ g.references, ∃ b ∈ g.blocks, b.ordinal = id

def Graph.Leads (g : Graph) (first second : Nat) : Prop :=
  ∃ b ∈ g.blocks, b.ordinal = first ∧ ∃ e, b.edge = some e ∧ second ∈ e.targets

def Graph.Reachable (g : Graph) (id : Nat) : Prop := Relation.ReflTransGen g.Leads g.start id

/-- The blocks that belong to a part of a `try` construct. -/
inductive TryConstruct.Covers (t : TryConstruct) : RegionKind → Nat → Prop where
  | body {id : Nat} : t.body ≤ id → id < t.next → Covers t .body id
  /-- A handler ends where the next one starts, or else the final block, or else what follows. -/
  | handler {id low : Nat} (i : Nat) : t.handlers[i]? = some low → low ≤ id →
      id < (t.handlers[i + 1]?.or t.final).getD t.next → Covers t .handler id
  | final {id low : Nat} : t.final = some low → low ≤ id → id < t.next → Covers t .final id

theorem mem_consecutive_iff {stop : Nat} {lows : List Nat} {id : Nat} :
    (∃ i ∈ consecutive stop lows, id ∈ i) ↔
      ∃ i low, lows[i]? = some low ∧ low ≤ id ∧ id < lows[i + 1]?.getD stop := by
  fun_induction consecutive stop lows with
  | case1 => simp
  | case2 low =>
    constructor
    · intro ⟨interval, member, inside⟩
      rw [List.mem_singleton] at member
      subst member
      exact ⟨0, low, rfl, inside⟩
    · intro ⟨i, l, found, inside⟩
      cases i with
      | zero =>
        cases found
        exact ⟨⟨low, stop⟩, List.mem_singleton.2 rfl, inside⟩
      | succ i => simp at found
  | case3 low high rest ih =>
    simp only [List.mem_cons, exists_eq_or_imp, ih]
    constructor
    · rintro (inside | ⟨i, l, found, inside⟩)
      · exact ⟨0, low, rfl, inside⟩
      · exact ⟨i + 1, l, found, inside⟩
    · intro ⟨i, l, found, inside⟩
      cases i with
      | zero =>
        cases found
        exact .inl inside
      | succ i => exact .inr ⟨i, l, found, inside⟩

theorem TryConstruct.covers_iff {t : TryConstruct} {kind : RegionKind} {id : Nat} :
    t.Covers kind id ↔ ∃ i ∈ t.intervals kind, id ∈ i := by
  cases kind with
  | body =>
    constructor
    · rintro (⟨low, high⟩)
      exact ⟨_, List.mem_singleton.2 rfl, low, high⟩
    · intro ⟨i, member, inside⟩
      rw [intervals, List.mem_singleton] at member
      subst member
      exact .body inside.1 inside.2
  | handler =>
    have bound (i : Nat) : (t.handlers[i + 1]?.or t.final).getD t.next =
        t.handlers[i + 1]?.getD (t.final.getD t.next) := by
      cases t.handlers[i + 1]? <;> rfl
    rw [intervals, mem_consecutive_iff]
    constructor
    · rintro (⟨-⟩ | ⟨i, found, low, high⟩)
      exact ⟨i, _, found, low, bound i ▸ high⟩
    · intro ⟨i, low, found, inside⟩
      exact .handler i found inside.1 ((bound i).symm ▸ inside.2)
  | final =>
    constructor
    · rintro (⟨-⟩ | ⟨-⟩ | ⟨present, low, high⟩)
      exact ⟨⟨_, t.next⟩, by simp [intervals, present], low, high⟩
    · intro ⟨i, member, inside⟩
      simp only [intervals, List.mem_map, Option.mem_toList] at member
      obtain ⟨low, present, rfl⟩ := member
      exact .final present inside.1 inside.2

namespace Search

theorem edge?_eq_some_iff {g : Graph} (sorted : Ascending g.blocks) {id : Nat} {e : Edge} :
    edge? g id = some e ↔ ∃ b ∈ g.blocks, b.ordinal = id ∧ b.edge = some e := by
  rw [edge?, Option.bind_eq_some_iff]
  simp only [Graph.block?, bisect_eq_some_iff sorted, and_assoc]

theorem leads_iff {g : Graph} (sorted : Ascending g.blocks) {first second : Nat} :
    g.Leads first second ↔ ∃ e, edge? g first = some e ∧ second ∈ e.targets := by
  simp only [edge?_eq_some_iff sorted]
  constructor
  · intro ⟨b, member, same, e, leaves, target⟩
    exact ⟨e, ⟨b, member, same, leaves⟩, target⟩
  · intro ⟨e, ⟨b, member, same, leaves⟩, target⟩
    exact ⟨b, member, same, e, leaves, target⟩

/-- What holds at every point of a search. -/
structure Inv (g : Graph) (s : Search) : Prop where
  start_known : g.start ∈ s.visited ∨ g.start ∈ s.pending
  closed : ∀ a ∈ s.visited, ∀ b, g.Leads a b → b ∈ s.visited ∨ b ∈ s.pending
  reachable : ∀ id, id ∈ s.visited ∨ id ∈ s.pending → g.Reachable id
  distinct : s.visited.Nodup
  recorded : ∀ kind id, s.regions.contains kind id = true ↔
    ∃ a ∈ s.visited, ∃ t, edge? g a = some (.guarded t) ∧ t.Covers kind id

theorem init_inv (g : Graph) : Inv g (init g) where
  start_known := .inr (List.mem_singleton.2 rfl)
  closed := by simp [init]
  reachable := by
    intro id known
    have same : id = g.start := by simpa [init] using known
    rw [same]
    exact .refl
  distinct := List.nodup_nil
  recorded := by
    intro kind id
    cases kind <;> simp [init, Regions.empty, Regions.contains, Regions.intervals]

theorem skip_inv {g : Graph} {s : Search} {id : Nat} {rest : List Nat} (inv : Inv g s)
    (waiting : s.pending.Perm (id :: rest)) (known : id ∈ s.visited) :
    Inv g { s with pending := rest } := by
  have forget {a : Nat} (held : a ∈ s.visited ∨ a ∈ s.pending) : a ∈ s.visited ∨ a ∈ rest := by
    rw [waiting.mem_iff, List.mem_cons] at held
    rcases held with held | rfl | held
    · exact .inl held
    · exact .inl known
    · exact .inr held
  exact {
    start_known := forget inv.start_known
    closed := fun a visited b leads => forget (inv.closed a visited b leads)
    reachable := by
      intro a held
      apply inv.reachable a
      rw [waiting.mem_iff]
      exact held.imp_right (List.mem_cons_of_mem id)
    distinct := inv.distinct
    recorded := inv.recorded }

def regionsAfter (r : Regions) (e? : Option Edge) : Regions :=
  (e?.bind Edge.construct?).elim r r.recordTry

theorem contains_regionsAfter (r : Regions) (e? : Option Edge) (kind : RegionKind) (id : Nat) :
    (regionsAfter r e?).contains kind id = true ↔
      r.contains kind id = true ∨ ∃ t, e? = some (.guarded t) ∧ t.Covers kind id := by
  unfold regionsAfter
  cases e? with
  | none => simp
  | some e =>
    cases e with
    | guarded t =>
      simp only [Option.bind_some, Edge.construct?, Option.elim_some, Regions.contains_recordTry,
        Option.some.injEq, Edge.guarded.injEq, ← TryConstruct.covers_iff, exists_eq_left']
    | _ => simp [Edge.construct?]

/-- Visiting a new block, whose targets become pending unless they were visited. -/
theorem visit_inv {g : Graph} {s : Search} {id : Nat} {rest : List Nat}
    (sorted : Ascending g.blocks) (inv : Inv g s) (waiting : s.pending.Perm (id :: rest))
    (fresh : id ∉ s.visited) :
    Inv g ⟨id :: s.visited,
      ((edge? g id).toList.flatMap Edge.targets).filter (· ∉ id :: s.visited) ++ rest,
      regionsAfter s.regions (edge? g id)⟩ := by
  -- the block goes from those that are pending to those that were visited, and no other is lost
  have keep {a : Nat} (held : a ∈ s.visited ∨ a ∈ s.pending) :
      a ∈ id :: s.visited ∨
        a ∈ ((edge? g id).toList.flatMap Edge.targets).filter (· ∉ id :: s.visited) ++ rest := by
    rw [waiting.mem_iff, List.mem_cons] at held
    rcases held with held | rfl | held
    · exact .inl (List.mem_cons_of_mem id held)
    · exact .inl List.mem_cons_self
    · exact .inr (List.mem_append_right _ held)
  have reached : g.Reachable id := by
    apply inv.reachable
    rw [waiting.mem_iff]
    exact .inr List.mem_cons_self
  constructor
  case start_known => exact keep inv.start_known
  case closed =>
    intro a visited b leads
    rcases List.mem_cons.1 visited with rfl | visited
    · obtain ⟨e, leaves, target⟩ := (leads_iff sorted).1 leads
      by_cases seen : b ∈ a :: s.visited
      · exact .inl seen
      · refine .inr (List.mem_append_left _ (List.mem_filter.2 ⟨?_, decide_eq_true seen⟩))
        rw [leaves]
        simpa using target
    · exact keep (inv.closed a visited b leads)
  case reachable =>
    intro a held
    rcases held with held | held
    · rcases List.mem_cons.1 held with rfl | held
      · exact reached
      · exact inv.reachable a (.inl held)
    · rcases List.mem_append.1 held with held | held
      · obtain ⟨e, leaves, target⟩ := List.mem_flatMap.1 (List.mem_filter.1 held).1
        rw [Option.mem_toList] at leaves
        exact reached.tail ((leads_iff sorted).2 ⟨e, leaves, target⟩)
      · apply inv.reachable a
        rw [waiting.mem_iff]
        exact .inr (List.mem_cons_of_mem id held)
  case distinct => exact List.nodup_cons.2 ⟨fresh, inv.distinct⟩
  case recorded =>
    intro kind a
    simp only [contains_regionsAfter, inv.recorded, List.mem_cons, exists_eq_or_imp]
    exact or_comm

theorem look_fresh {g : Graph} {s : Search} {id : Nat} {rest : List Nat}
    (fresh : id ∉ s.visited) :
    s.look g id rest = ⟨id :: s.visited,
      ((edge? g id).toList.flatMap Edge.targets).filter (· ∉ id :: s.visited) ++ rest,
      regionsAfter s.regions (edge? g id)⟩ := by
  rw [look, if_neg fresh]
  cases edge? g id with
  | none => rfl
  | some e => simp [regionsAfter]

theorem look_inv {g : Graph} {s : Search} {id : Nat} {rest : List Nat}
    (sorted : Ascending g.blocks) (inv : Inv g s) (waiting : s.pending.Perm (id :: rest)) :
    Inv g (s.look g id rest) := by
  by_cases known : id ∈ s.visited
  · rw [look, if_pos known]
    exact skip_inv inv waiting known
  · rw [look_fresh known]
    exact visit_inv sorted inv waiting known

/-- A search whose pending blocks may be looked at in any order. -/
inductive Step (g : Graph) : Search → Search → Prop where
  | look {s : Search} {id : Nat} {rest : List Nat} :
      s.pending.Perm (id :: rest) → Step g s (s.look g id rest)

theorem steps_inv {g : Graph} {s t : Search} (sorted : Ascending g.blocks) (inv : Inv g s)
    (steps : Relation.ReflTransGen (Step g) s t) : Inv g t := by
  induction steps with
  | refl => exact inv
  | tail _ step ih =>
    cases step with
    | look waiting => exact look_inv sorted ih waiting

/-- The search looks at the next pending block. -/
inductive Turn (g : Graph) : Search → Search → Prop where
  | look {s : Search} {id : Nat} {rest : List Nat} :
      s.pending = id :: rest → Turn g s (s.look g id rest)

theorem Turn.step {g : Graph} {s t : Search} (turn : Turn g s t) : Step g s t := by
  cases turn with
  | look waiting => exact .look (waiting ▸ .refl _)

theorem steps_of_turns {g : Graph} {s t : Search} (turns : Relation.ReflTransGen (Turn g) s t) :
    Relation.ReflTransGen (Step g) s t := turns.lift id fun _ _ => Turn.step

theorem run_turns (g : Graph) (s : Search) :
    Relation.ReflTransGen (Turn g) s (s.run g) ∧ (s.run g).pending = [] := by
  fun_induction run g s with
  | case1 s done => exact ⟨.refl, done⟩
  | case2 s id rest waiting ih => exact ⟨.head (.look waiting) ih.1, ih.2⟩

theorem run_steps (g : Graph) (s : Search) :
    Relation.ReflTransGen (Step g) s (s.run g) ∧ (s.run g).pending = [] :=
  ⟨steps_of_turns (run_turns g s).1, (run_turns g s).2⟩

/-- However a search goes on, in the end it has visited the blocks that control can reach. -/
theorem Inv.mem_visited_iff {g : Graph} {s : Search} (inv : Inv g s) (done : s.pending = [])
    {id : Nat} : id ∈ s.visited ↔ g.Reachable id := by
  have settled {a : Nat} (held : a ∈ s.visited ∨ a ∈ s.pending) : a ∈ s.visited := by
    rw [done] at held
    exact held.resolve_right List.not_mem_nil
  constructor
  · intro visited
    exact inv.reachable id (.inl visited)
  · intro reached
    induction reached with
    | refl => exact settled inv.start_known
    | tail _ leads ih => exact settled (inv.closed _ ih _ leads)

theorem Inv.contains_iff {g : Graph} {s : Search} (sorted : Ascending g.blocks) (inv : Inv g s)
    (done : s.pending = []) {kind : RegionKind} {id : Nat} :
    s.regions.contains kind id = true ↔
      ∃ b ∈ g.blocks, g.Reachable b.ordinal ∧
        ∃ t, b.edge = some (.guarded t) ∧ t.Covers kind id := by
  simp only [inv.recorded, inv.mem_visited_iff done, edge?_eq_some_iff sorted]
  constructor
  · rintro ⟨a, reached, t, ⟨b, member, rfl, leaves⟩, covers⟩
    exact ⟨b, member, reached, t, leaves, covers⟩
  · intro ⟨b, member, reached, t, leaves, covers⟩
    exact ⟨b.ordinal, reached, t, ⟨b, member, rfl, leaves⟩, covers⟩

theorem run_inv {g : Graph} (sorted : Ascending g.blocks) :
    Inv g ((init g).run g) ∧ ((init g).run g).pending = [] :=
  ⟨steps_inv sorted (init_inv g) (run_steps g _).1, (run_steps g _).2⟩

end Search

namespace Graph

variable {g : Graph}

theorem mem_order_iff (sorted : Ascending g.blocks) {id : Nat} :
    id ∈ g.plan.order ↔ g.Reachable id := by
  obtain ⟨inv, done⟩ := Search.run_inv sorted
  rw [plan, List.mem_mergeSort, inv.mem_visited_iff done]

theorem order_pairwise (sorted : Ascending g.blocks) : g.plan.order.Pairwise (· < ·) :=
  mergeSort_pairwise id (List.map_id _ ▸ (Search.run_inv sorted).1.distinct)

theorem contains_regions_iff (sorted : Ascending g.blocks) {kind : RegionKind} {id : Nat} :
    g.plan.regions.contains kind id = true ↔
      ∃ b ∈ g.blocks, g.Reachable b.ordinal ∧
        ∃ t, b.edge = some (.guarded t) ∧ t.Covers kind id := by
  obtain ⟨inv, done⟩ := Search.run_inv sorted
  exact inv.contains_iff sorted done

theorem reachableBlocks_eq (sorted : Ascending g.blocks) :
    g.reachableBlocks = g.blocks.filter fun b => b.ordinal ∈ g.plan.order :=
  filterMap_block? sorted (order_pairwise sorted)

theorem mem_reachableBlocks_iff (sorted : Ascending g.blocks) {b : Block} :
    b ∈ g.reachableBlocks ↔ b ∈ g.blocks ∧ g.Reachable b.ordinal := by
  rw [reachableBlocks_eq sorted, List.mem_filter, decide_eq_true_eq, mem_order_iff sorted]

theorem reachableBlocks_ascending (sorted : Ascending g.blocks) : Ascending g.reachableBlocks := by
  rw [reachableBlocks_eq sorted]
  exact List.Pairwise.filter _ sorted

/-- The plan is the same whichever order the pending blocks are looked at in. -/
theorem plan_eq_of_steps (sorted : Ascending g.blocks) {s : Search}
    (steps : Relation.ReflTransGen (Search.Step g) (Search.init g) s) (done : s.pending = []) :
    s.visited.mergeSort (· ≤ ·) = g.plan.order ∧
      ∀ kind id, s.regions.contains kind id = g.plan.regions.contains kind id := by
  have inv := Search.steps_inv sorted (Search.init_inv g) steps
  constructor
  · apply eq_of_pairwise_lt (mergeSort_pairwise id (List.map_id _ ▸ inv.distinct))
      (order_pairwise sorted)
    intro id
    rw [List.mem_mergeSort, inv.mem_visited_iff done, mem_order_iff sorted]
  · intro kind id
    rw [Bool.eq_iff_iff, inv.contains_iff sorted done, contains_regions_iff sorted]

/-- The planned order strictly ascends and lists exactly the blocks that control can reach; the
planned regions are those of the `try` constructs at the ends of these blocks. Every search that
comes to its end finds the same. -/
theorem plan_exact (sound : g.Sound) :
    (g.plan.order.Pairwise (· < ·) ∧ ∀ id, id ∈ g.plan.order ↔ g.Reachable id) ∧
      (∀ kind id, g.plan.regions.contains kind id = true ↔
        ∃ b ∈ g.blocks, g.Reachable b.ordinal ∧
          ∃ t, b.edge = some (.guarded t) ∧ t.Covers kind id) ∧
      ∀ s, Relation.ReflTransGen (Search.Step g) (Search.init g) s → s.pending = [] →
        s.visited.mergeSort (· ≤ ·) = g.plan.order ∧
          ∀ kind id, s.regions.contains kind id = g.plan.regions.contains kind id :=
  ⟨⟨order_pairwise sound.sorted, fun _ => mem_order_iff sound.sorted⟩,
    fun _ _ => contains_regions_iff sound.sorted,
    fun _ steps done => plan_eq_of_steps sound.sorted steps done⟩

/-- A loop into a block of its own, a construct inside another one, and a construct in a block that
control cannot reach. -/
def nestedTries : Graph :=
  { start := 0
    exit := 7
    blocks :=
      [⟨0, .start, [], some (.guarded ⟨1, [3, 4], some 5, 7⟩)⟩,
       ⟨1, .plain, [], some (.guarded ⟨1, [2], none, 3⟩)⟩,
       ⟨2, .plain, [], some (.loopBack 1)⟩,
       ⟨3, .plain, [], some (.jump 5)⟩,
       ⟨4, .plain, [], some (.jump 5)⟩,
       ⟨5, .final, [], some (.jump 7)⟩,
       ⟨7, .exit, [], none⟩,
       ⟨9, .plain, [], some (.guarded ⟨1, [], some 2, 7⟩)⟩]
    labels := []
    unreachable := [9] }

theorem nestedTries_sound : nestedTries.Sound := by
  constructor
  · unfold Ascending
    decide
  · decide

theorem nestedTries_plan :
    nestedTries.Sound ∧ 3 ∈ nestedTries.plan.order ∧ 9 ∉ nestedTries.plan.order ∧
      nestedTries.plan.regions.contains .handler 4 = true := by
  obtain ⟨⟨-, order⟩, regions, -⟩ := plan_exact nestedTries_sound
  refine ⟨nestedTries_sound, (order 3).2 ?_, fun planned => ?_, (regions .handler 4).2 ?_⟩
  · exact .single ⟨_, List.mem_cons_self, rfl, _, rfl, by decide⟩
  · have notTarget : ∀ b ∈ nestedTries.blocks, ∀ e ∈ b.edge.toList, 9 ∉ e.targets := by decide
    cases (order 9).1 planned with
    | tail _ last =>
      obtain ⟨b, member, -, e, leaves, target⟩ := last
      exact notTarget b member e (Option.mem_toList.2 leaves) target
  · exact ⟨_, List.mem_cons_self, .refl, _, rfl, .handler 1 rfl (by decide) (by decide)⟩

end Graph

end FlowLint
