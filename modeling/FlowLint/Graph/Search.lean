import FlowLint.Graph.Region

/-!
The search for the blocks that control can reach. It keeps a stack of blocks still to be looked at
and follows the edge of each block once; on the way it records the regions of the `try` constructs
that it enters.
-/

namespace FlowLint

structure Search where
  /-- Blocks already looked at, the latest first. -/
  visited : List Nat
  /-- Blocks still to be looked at, the next one first. -/
  pending : List Nat
  regions : Regions

namespace Search

def init (g : Graph) : Search := ⟨[], [g.start], .empty⟩

def edge? (g : Graph) (id : Nat) : Option Edge := (g.block? id).bind Block.edge

/-- Looks at the next pending block. One that was visited before is passed over; otherwise the
targets of its edge become pending, except for those already visited. -/
def look (g : Graph) (s : Search) (id : Nat) (rest : List Nat) : Search :=
  if id ∈ s.visited then { s with pending := rest }
  else
    match edge? g id with
    | none => ⟨id :: s.visited, rest, s.regions⟩
    | some edge =>
      ⟨id :: s.visited, edge.targets.filter (· ∉ id :: s.visited) ++ rest,
        edge.construct?.elim s.regions s.regions.recordTry⟩

def unvisited (g : Graph) (visited : List Nat) : Nat :=
  g.blocks.countP fun b => b.ordinal ∉ visited

theorem unvisited_cons_le (g : Graph) (visited : List Nat) (id : Nat) :
    unvisited g (id :: visited) ≤ unvisited g visited := by
  apply List.countP_mono_left
  intro b _ absent
  simp only [List.mem_cons, not_or, decide_eq_true_eq] at absent ⊢
  exact absent.2

theorem unvisited_cons_lt {g : Graph} {visited : List Nat} {b : Block} (member : b ∈ g.blocks)
    (fresh : b.ordinal ∉ visited) : unvisited g (b.ordinal :: visited) < unvisited g visited := by
  have tail (blocks : List Block) :
      blocks.countP (fun c => c.ordinal ∉ b.ordinal :: visited) ≤
        blocks.countP fun c => c.ordinal ∉ visited := by
    apply List.countP_mono_left
    intro c _ absent
    simp only [List.mem_cons, not_or, decide_eq_true_eq] at absent ⊢
    exact absent.2
  unfold unvisited
  generalize g.blocks = blocks at member
  induction blocks with
  | nil => simp at member
  | cons c blocks ih =>
    rw [List.countP_cons, List.countP_cons]
    rcases List.mem_cons.1 member with rfl | later
    · have := tail blocks
      simp only [List.mem_cons, true_or, not_true_eq_false, decide_false, Bool.false_eq_true,
        ↓reduceIte, fresh, not_false_eq_true, decide_true] at this ⊢
      omega
    · have := ih later
      by_cases old : c.ordinal ∈ visited
      · simpa [old] using this
      · have fewer : (if decide (c.ordinal ∉ b.ordinal :: visited) = true then 1 else 0) ≤ 1 := by
          split <;> omega
        rw [if_pos (decide_eq_true old)]
        omega

/-- Runs until nothing is pending. Each step passes over a pending block or visits a new one. -/
def run (g : Graph) (s : Search) : Search :=
  match _waiting : s.pending with
  | [] => s
  | id :: rest => run g (s.look g id rest)
termination_by (unvisited g s.visited, s.pending.length)
decreasing_by
  by_cases known : id ∈ s.visited
  · rw [look, if_pos known]
    apply Prod.Lex.right
    simp [_waiting]
  · rw [look, if_neg known]
    split
    · rcases Nat.lt_or_eq_of_le (unvisited_cons_le g s.visited id) with less | same
      · exact Prod.Lex.left _ _ less
      · rw [same]
        apply Prod.Lex.right
        simp [_waiting]
    · rename_i edge leaves
      obtain ⟨b, found, -⟩ := Option.bind_eq_some_iff.1 leaves
      obtain ⟨member, rfl⟩ := bisect_sound found
      exact Prod.Lex.left _ _ (unvisited_cons_lt member known)

end Search

/-- The blocks that control can reach, ascending, and the regions of the constructs among them. -/
structure Plan where
  order : List Nat
  regions : Regions

def Graph.plan (g : Graph) : Plan :=
  let s := (Search.init g).run g
  ⟨s.visited.mergeSort (· ≤ ·), s.regions⟩

def Graph.reachableBlocks (g : Graph) : List Block := g.plan.order.filterMap g.block?

end FlowLint
