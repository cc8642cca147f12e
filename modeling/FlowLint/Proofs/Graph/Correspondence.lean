import FlowLint.Proofs.Graph.Plan
import FlowLint.Proofs.Related
import Mathlib.Data.Set.Monotone

/-!
Graphs that correspond block by block, under ordinals that may be others but keep their order. Of
blocks that control cannot reach, nothing but the ordinal has to correspond. The search reaches
corresponding blocks in both, and they lie in regions of the same kinds.
-/

namespace FlowLint

variable {f : Nat → Nat}

def Interval.map (f : Nat → Nat) (i : Interval) : Interval := ⟨f i.low, f i.high⟩

def TryConstruct.renumber (f : Nat → Nat) (t : TryConstruct) : TryConstruct :=
  ⟨f t.body, t.handlers.map f, t.final.map f, f t.next⟩

theorem consecutive_map (stop : Nat) (lows : List Nat) :
    consecutive (f stop) (lows.map f) = (consecutive stop lows).map (Interval.map f) := by
  fun_induction consecutive stop lows with
  | case1 => rfl
  | case2 low => rfl
  | case3 low high rest ih =>
    rw [List.map_cons, List.map_cons, consecutive, ← List.map_cons, ih, List.map_cons]
    rfl

theorem bounds_of_mem_consecutive {stop : Nat} {lows : List Nat} {i : Interval}
    (member : i ∈ consecutive stop lows) : i.low ∈ lows ∧ (i.high ∈ lows ∨ i.high = stop) := by
  fun_induction consecutive stop lows with
  | case1 => cases member
  | case2 low =>
    rw [List.mem_singleton.1 member]
    exact ⟨List.mem_singleton.2 rfl, .inr rfl⟩
  | case3 low high rest ih =>
    rcases List.mem_cons.1 member with rfl | later
    · exact ⟨List.mem_cons_self, .inl (List.mem_cons_of_mem low List.mem_cons_self)⟩
    · have inside := ih later
      exact ⟨List.mem_cons_of_mem low inside.1, inside.2.imp_left (List.mem_cons_of_mem low)⟩

namespace TryConstruct

theorem intervals_renumber (t : TryConstruct) (kind : RegionKind) :
    (t.renumber f).intervals kind = (t.intervals kind).map (Interval.map f) := by
  cases kind with
  | body => rfl
  | handler =>
    have stop : (t.final.map f).getD (f t.next) = f (t.final.getD t.next) := by
      cases t.final <;> rfl
    rw [intervals, intervals, renumber, stop, consecutive_map]
  | final => cases final : t.final <;> simp [intervals, renumber, final, Interval.map]

/-- The intervals of a construct begin and end at blocks that it leads to. -/
theorem bounds_of_mem_intervals {t : TryConstruct} {kind : RegionKind} {i : Interval}
    (member : i ∈ t.intervals kind) :
    i.low ∈ (Edge.guarded t).targets ∧ i.high ∈ (Edge.guarded t).targets := by
  cases kind with
  | body =>
    rw [List.mem_singleton.1 member]
    simp [Edge.targets]
  | handler =>
    have bounds := bounds_of_mem_consecutive member
    have low : i.low ∈ (Edge.guarded t).targets := by simp [Edge.targets, bounds.1]
    refine ⟨low, ?_⟩
    rcases bounds.2 with among | stop
    · simp [Edge.targets, among]
    · cases final : t.final <;> simp [Edge.targets, stop, final]
  | final =>
    obtain ⟨low, present, rfl⟩ := List.mem_map.1 member
    simp [Edge.targets, Option.mem_toList.1 present]

theorem covers_renumber {t : TryConstruct} {kind : RegionKind} {id : Nat} {ids : Set Nat}
    (mono : StrictMonoOn f ids) (known : id ∈ ids)
    (targets : ∀ target ∈ (Edge.guarded t).targets, target ∈ ids) :
    (t.renumber f).Covers kind (f id) ↔ t.Covers kind id := by
  have inside (i : Interval) (member : i ∈ t.intervals kind) : f id ∈ i.map f ↔ id ∈ i := by
    have bounds := bounds_of_mem_intervals member
    have low := mono.le_iff_le (targets _ bounds.1) known
    have high := mono.lt_iff_lt known (targets _ bounds.2)
    exact and_congr low high
  rw [covers_iff, covers_iff, intervals_renumber]
  constructor
  · rintro ⟨_, mapped, within⟩
    obtain ⟨i, member, rfl⟩ := List.mem_map.1 mapped
    exact ⟨i, member, (inside i member).1 within⟩
  · rintro ⟨i, member, within⟩
    exact ⟨i.map f, List.mem_map_of_mem member, (inside i member).2 within⟩

end TryConstruct

/-- The second edge leads to the blocks that the targets of the first correspond to. -/
structure Edge.Follows (f : Nat → Nat) (e e' : Edge) : Prop where
  targets : e'.targets = e.targets.map f
  construct : e'.construct? = e.construct?.map (TryConstruct.renumber f)

theorem Edge.Follows.of_eq {e e' : Edge} (targets : e'.targets = e.targets)
    (construct : e'.construct? = e.construct?) : e.Follows id e' where
  targets := by rw [targets, List.map_id]
  construct := by
    have same (t : TryConstruct) : t.renumber id = t := by simp [TryConstruct.renumber]
    rw [construct, funext same]
    exact Option.map_id'.symm

theorem Edge.construct?_eq_some_iff {e : Edge} {t : TryConstruct} :
    e.construct? = some t ↔ e = .guarded t := by
  cases e <;> simp [construct?]

def Graph.ordinals (g : Graph) : Set Nat := {id | ∃ b ∈ g.blocks, b.ordinal = id}

/-- The blocks of the graphs are related one by one, and where control can get to, their edges lead
to related blocks. -/
structure Graph.Follows (f : Nat → Nat) (R : Block → Block → Prop) (g g' : Graph) : Prop where
  start : g'.start = f g.start
  blocks : List.Forall₂ R g.blocks g'.blocks
  ordinal : ∀ b b', R b b' → b'.ordinal = f b.ordinal
  edge : ∀ b b', R b b' → g.Reachable b.ordinal → Option.Rel (Edge.Follows f) b.edge b'.edge
  mono : StrictMonoOn f g.ordinals

theorem Graph.Sound.mem_ordinals_of_target {g : Graph} (sound : g.Sound) {b : Block} {e : Edge}
    {target : Nat} (member : b ∈ g.blocks) (leaves : b.edge = some e) (among : target ∈ e.targets) :
    target ∈ g.ordinals := by
  apply sound.exist
  apply List.mem_cons_of_mem
  refine List.mem_flatMap.2 ⟨b, member, List.mem_flatMap.2 ⟨e, ?_, among⟩⟩
  exact Option.mem_toList.2 leaves

theorem Graph.Sound.mem_ordinals_of_reachable {g : Graph} (sound : g.Sound) {id : Nat}
    (reached : g.Reachable id) : id ∈ g.ordinals := by
  cases reached with
  | refl => exact sound.exist _ List.mem_cons_self
  | tail _ leads =>
    obtain ⟨b, member, -, e, leaves, target⟩ := leads
    exact sound.mem_ordinals_of_target member leaves target

theorem Graph.follows_map {g g' : Graph} {m : Block → Block} (start : g'.start = f g.start)
    (blocks : g'.blocks = g.blocks.map m) (ordinal : ∀ b, (m b).ordinal = f b.ordinal)
    (edge : ∀ b, Option.Rel (Edge.Follows f) b.edge (m b).edge) (mono : StrictMonoOn f g.ordinals) :
    g.Follows f (fun b b' => b' = m b) g' where
  start := start
  blocks := by
    rw [blocks]
    refine .map_right ?_ g.blocks
    exact fun _ => rfl
  ordinal := by
    rintro b _ rfl
    exact ordinal b
  edge := by
    rintro b _ rfl -
    exact edge b
  mono := mono

namespace Graph.Follows

variable {R : Block → Block → Prop} {g g' : Graph}

theorem sorted (follows : g.Follows f R g') (sorted : Ascending g.blocks) :
    Ascending g'.blocks := by
  have ordinals : g'.blocks.map Block.ordinal = g.blocks.map fun b => f b.ordinal :=
    follows.blocks.map_eq fun b b' related => follows.ordinal b b' related
  rw [Ascending, ← List.pairwise_map (f := Block.ordinal) (R := (· < ·)), ordinals,
    List.pairwise_map]
  refine List.Pairwise.imp_of_mem ?_ sorted
  intro a b first second less
  exact follows.mono ⟨a, first, rfl⟩ ⟨b, second, rfl⟩ less

theorem sound (follows : g.Follows f R g') (sound : g.Sound)
    (edges : ∀ b b', R b b' → Option.Rel (Edge.Follows f) b.edge b'.edge) : g'.Sound where
  sorted := follows.sorted sound.sorted
  exist := by
    have targets : List.Forall₂ (fun id id' => id' = f id) g.references g'.references := by
      refine .cons follows.start (follows.blocks.flatMap fun b b' related => ?_)
      refine (edges b b' related).toList.flatMap fun e e' here => ?_
      rw [here.targets, List.forall₂_map_right_iff, List.forall₂_same]
      exact fun _ _ => rfl
    intro id' member
    obtain ⟨id, among, rfl⟩ := targets.exists_of_mem_right member
    obtain ⟨b, listed, rfl⟩ := sound.exist id among
    obtain ⟨b', there, related⟩ := follows.blocks.exists_of_mem listed
    exact ⟨b', there, follows.ordinal b b' related⟩

/-- What a block of the first graph is related to is looked up under its new ordinal. -/
theorem block?_of_mem (follows : g.Follows f R g') (ascending : Ascending g.blocks) {b : Block}
    (member : b ∈ g.blocks) : ∃ b', g'.block? (f b.ordinal) = some b' ∧ R b b' := by
  obtain ⟨b', among, related⟩ := follows.blocks.exists_of_mem member
  have found := (block?_eq_some_iff (follows.sorted ascending)).2
    ⟨among, follows.ordinal b b' related⟩
  exact ⟨b', found, related⟩

theorem block? (follows : g.Follows f R g') (ascending : Ascending g.blocks) {id : Nat}
    (apart : ∀ other ∈ g.ordinals, f other = f id → other = id) :
    Option.Rel R (g.block? id) (g'.block? (f id)) := by
  cases found : g.block? id with
  | some b =>
    obtain ⟨member, rfl⟩ := (block?_eq_some_iff ascending).1 found
    obtain ⟨b', there, related⟩ := follows.block?_of_mem ascending member
    rw [there]
    exact .some related
  | none =>
    cases there : g'.block? (f id) with
    | none => exact .none
    | some b' =>
      obtain ⟨among, ordinal⟩ := (block?_eq_some_iff (follows.sorted ascending)).1 there
      obtain ⟨b, member, related⟩ := follows.blocks.exists_of_mem_right among
      have same : b.ordinal = id :=
        apart _ ⟨b, member, rfl⟩ ((follows.ordinal b b' related).symm.trans ordinal)
      have here := (block?_eq_some_iff ascending).2 ⟨member, same⟩
      rw [found] at here
      cases here

theorem edge? (follows : g.Follows f R g') (sound : g.Sound) {id : Nat}
    (reached : g.Reachable id) :
    Option.Rel (Edge.Follows f) (Search.edge? g id) (Search.edge? g' (f id)) := by
  obtain ⟨b, member, rfl⟩ := sound.mem_ordinals_of_reachable reached
  have here := (block?_eq_some_iff sound.sorted).2 ⟨member, rfl⟩
  obtain ⟨b', there, related⟩ := follows.block?_of_mem sound.sorted member
  rw [Search.edge?, Search.edge?, here, there]
  exact follows.edge b b' related reached

theorem leads_iff (follows : g.Follows f R g') (sound : g.Sound) {id target' : Nat}
    (reached : g.Reachable id) :
    g'.Leads (f id) target' ↔ ∃ target, g.Leads id target ∧ f target = target' := by
  have edges := follows.edge? sound reached
  simp only [Search.leads_iff (follows.sorted sound.sorted), Search.leads_iff sound.sorted]
  generalize Search.edge? g id = edge, Search.edge? g' (f id) = edge' at edges
  cases edges with
  | none => simp
  | some related => simp [related.targets]

/-- Control can reach the blocks that reachable blocks correspond to, and no others. -/
theorem reachable_iff (follows : g.Follows f R g') (sound : g.Sound) {id' : Nat} :
    g'.Reachable id' ↔ ∃ id, g.Reachable id ∧ f id = id' := by
  -- edges correspond at reachable blocks only, so that the path has to stay among these
  constructor
  · intro reached
    induction reached with
    | refl => exact ⟨g.start, .refl, follows.start.symm⟩
    | tail _ step ih =>
      obtain ⟨id, before, rfl⟩ := ih
      obtain ⟨target, leads, rfl⟩ := (follows.leads_iff sound before).1 step
      exact ⟨target, before.tail leads, rfl⟩
  · rintro ⟨id, reached, rfl⟩
    induction reached with
    | refl =>
      rw [← follows.start]
      exact .refl
    | tail before leads ih =>
      exact ih.tail ((follows.leads_iff sound before).2 ⟨_, leads, rfl⟩)

theorem order_eq (follows : g.Follows f R g') (sound : g.Sound) :
    g'.plan.order = g.plan.order.map f := by
  have ascending : (g.plan.order.map f).Pairwise (· < ·) := by
    rw [List.pairwise_map]
    refine List.Pairwise.imp_of_mem ?_ (order_pairwise sound.sorted)
    intro first second inFirst inSecond less
    have known {id : Nat} (planned : id ∈ g.plan.order) : id ∈ g.ordinals :=
      sound.mem_ordinals_of_reachable ((mem_order_iff sound.sorted).1 planned)
    exact follows.mono (known inFirst) (known inSecond) less
  apply eq_of_pairwise_lt (order_pairwise (follows.sorted sound.sorted)) ascending
  intro id
  simp only [mem_order_iff (follows.sorted sound.sorted), follows.reachable_iff sound,
    List.mem_map, mem_order_iff sound.sorted]

theorem reachableBlocks (follows : g.Follows f R g') (sound : g.Sound) :
    List.Forall₂ (fun b b' => g.Reachable b.ordinal ∧ R b b') g.reachableBlocks
      g'.reachableBlocks := by
  have planned : List.Forall₂ (fun id id' => g.Reachable id ∧ f id = id') g.plan.order
      g'.plan.order := by
    rw [follows.order_eq sound, List.forall₂_map_right_iff, List.forall₂_same]
    intro id member
    exact ⟨(mem_order_iff sound.sorted).1 member, rfl⟩
  refine List.rel_filterMap ?_ planned
  rintro id _ ⟨reached, rfl⟩
  obtain ⟨b, member, rfl⟩ := sound.mem_ordinals_of_reachable reached
  obtain ⟨b', there, related⟩ := follows.block?_of_mem sound.sorted member
  rw [(block?_eq_some_iff sound.sorted).2 ⟨member, rfl⟩, there]
  exact .some ⟨reached, related⟩

theorem reachable_ordinal_iff (follows : g.Follows f R g') (sound : g.Sound) {b b' : Block}
    (member : b ∈ g.blocks) (related : R b b') :
    g'.Reachable b'.ordinal ↔ g.Reachable b.ordinal := by
  rw [follows.reachable_iff sound, follows.ordinal b b' related]
  constructor
  · rintro ⟨id, reached, same⟩
    have known := sound.mem_ordinals_of_reachable reached
    rwa [← follows.mono.injOn known ⟨b, member, rfl⟩ same]
  · intro reached
    exact ⟨b.ordinal, reached, rfl⟩

theorem guarded_iff (follows : g.Follows f R g') {b b' : Block} {t' : TryConstruct}
    (related : R b b') (reached : g.Reachable b.ordinal) :
    b'.edge = some (.guarded t') ↔ ∃ t, b.edge = some (.guarded t) ∧ t.renumber f = t' := by
  have edges := follows.edge b b' related reached
  generalize b.edge = edge, b'.edge = edge' at edges
  cases edges with
  | none => simp
  | some follows =>
    simp only [Option.some.injEq, ← Edge.construct?_eq_some_iff, follows.construct,
      Option.map_eq_some_iff]

theorem contains_eq (follows : g.Follows f R g') (sound : g.Sound) {id : Nat}
    (reached : g.Reachable id) (kind : RegionKind) :
    g'.plan.regions.contains kind (f id) = g.plan.regions.contains kind id := by
  rw [Bool.eq_iff_iff, contains_regions_iff (follows.sorted sound.sorted),
    contains_regions_iff sound.sorted]
  have covers {b : Block} {t : TryConstruct} (member : b ∈ g.blocks)
      (leaves : b.edge = some (.guarded t)) :
      (t.renumber f).Covers kind (f id) ↔ t.Covers kind id :=
    TryConstruct.covers_renumber follows.mono (sound.mem_ordinals_of_reachable reached)
      fun _ among => sound.mem_ordinals_of_target member leaves among
  constructor
  · rintro ⟨b', among, reached', t', leaves', covered⟩
    obtain ⟨b, member, related⟩ := follows.blocks.exists_of_mem_right among
    have here := (follows.reachable_ordinal_iff sound member related).1 reached'
    obtain ⟨t, leaves, rfl⟩ := (follows.guarded_iff related here).1 leaves'
    exact ⟨b, member, here, t, leaves, (covers member leaves).1 covered⟩
  · rintro ⟨b, member, here, t, leaves, covered⟩
    obtain ⟨b', among, related⟩ := follows.blocks.exists_of_mem member
    have reached' := (follows.reachable_ordinal_iff sound member related).2 here
    have leaves' := (follows.guarded_iff related here).2 ⟨t, leaves, rfl⟩
    exact ⟨b', among, reached', _, leaves', (covers member leaves).2 covered⟩

end Graph.Follows

end FlowLint
