import FlowLint.Symbol.Arity
import Mathlib.Data.Nat.PSub

/-!
Counting arguments in a single pass. It goes through the parameters by position and subtracts the
number of those that it skipped. No subtraction falls below zero, and the outcome is the arity.
-/

namespace FlowLint

/-- What a pass has counted: the leading parameters that it skipped, and the arguments that a call
has to pass on account of the others. -/
structure Count where
  skipped : Nat
  least : Nat
  deriving DecidableEq, Repr

namespace Count

/-- A call may not leave out the parameter at a position. A variadic parameter is special only at
the end. -/
def isRequired (total i : Nat) (p : Parameter) : Bool :=
  !p.isOptionalLike && (i + 1 != total || !p.isVariadic)

/-- The pass at one position. It fails where a subtraction would fall below zero. -/
def step (total i : Nat) (p : Parameter) (c : Count) : Option Count :=
  if i = c.skipped ∧ p.isImplicit then some { c with skipped := c.skipped + 1 }
  else if isRequired total i p then
    (Nat.psub i c.skipped).map fun before => { c with least := before + 1 }
  else some c

def pass (total : Nat) : Nat → List Parameter → Count → Option Count
  | _, [], c => some c
  | i, p :: rest, c => (c.step total i p).bind (pass total (i + 1) rest)

variable {total i : Nat} {p : Parameter} {skipped least : Nat}

theorem step_implicit (implicit : p.isImplicit = true) :
    step total i p ⟨i, least⟩ = some ⟨i + 1, least⟩ := by
  rw [step, if_pos ⟨rfl, implicit⟩]

/-- Behind the leading parameters, nothing more is skipped. -/
theorem step_explicit (within : skipped ≤ i) (explicit : skipped = i → p.isImplicit = false) :
    step total i p ⟨skipped, least⟩ =
      some ⟨skipped, if isRequired total i p then i - skipped + 1 else least⟩ := by
  have counted : ¬ (i = skipped ∧ p.isImplicit = true) := by
    intro ⟨here, implicit⟩
    rw [explicit here.symm] at implicit
    cases implicit
  rw [step, if_neg counted, Nat.psub_eq_sub within]
  split <;> rfl

theorem leastArguments_cons (p : Parameter) (rest : List Parameter) :
    leastArguments (p :: rest) =
      if 0 < leastArguments rest then leastArguments rest + 1
      else if isRequired (i + 1 + rest.length) i p then 1 else 0 := by
  cases rest with
  | nil =>
    cases optional : p.isOptionalLike <;> cases variadic : p.isVariadic <;>
      simp [leastArguments, isRequired, optional, variadic]
  | cons q rest =>
    have notLast : (i + 1 != i + 1 + (q :: rest).length) = true := by simp
    rw [leastArguments, isRequired, notLast, Bool.true_or, Bool.and_true]
    · cases p.isOptionalLike <;> rfl
    · simp

theorem total_cons (i : Nat) (p : Parameter) (rest : List Parameter) :
    i + (p :: rest).length = i + 1 + rest.length := by
  rw [List.length_cons]
  omega

/-- Behind the leading parameters, a pass counts up to the last one that is required. The number of
those that were skipped never exceeds the position. -/
theorem pass_explicit {ps : List Parameter} (within : skipped ≤ i)
    (explicit : skipped = i → ∀ p ∈ ps.head?, p.isImplicit = false) :
    pass (i + ps.length) i ps ⟨skipped, least⟩ =
      some ⟨skipped,
        if 0 < leastArguments ps then i - skipped + leastArguments ps else least⟩ := by
  -- the total stays `i + ps.length` while the position moves on and the list gets shorter
  induction ps generalizing i least with
  | nil => rfl
  | cons p rest ih =>
    have behind : skipped = i + 1 → ∀ q ∈ rest.head?, q.isImplicit = false := by
      intro here
      omega
    rw [pass, step_explicit within fun here => explicit here p rfl, Option.bind_some,
      total_cons, ih (Nat.le_succ_of_le within) behind, leastArguments_cons (i := i)]
    congr 2
    by_cases later : 0 < leastArguments rest
    · rw [if_pos later, if_pos later, if_pos (Nat.succ_pos _)]
      omega
    · rw [if_neg later, if_neg later]
      split <;> rfl

/-- A pass skips the leading implicit parameters and no others. -/
theorem pass_eq (ps : List Parameter) :
    pass (i + ps.length) i ps ⟨i, 0⟩ =
      some ⟨i + (ps.takeWhile Parameter.isImplicit).length,
        leastArguments (explicitParameters ps)⟩ := by
  induction ps generalizing i with
  | nil => rfl
  | cons p rest ih =>
    cases implicit : p.isImplicit with
    | true =>
      rw [pass, step_implicit implicit, Option.bind_some, total_cons, ih, explicitParameters,
        explicitParameters, List.takeWhile_cons_of_pos implicit,
        List.dropWhile_cons_of_pos implicit, List.length_cons]
      congr 2
      omega
    | false =>
      have other : ¬ p.isImplicit = true := by
        rw [implicit]
        exact Bool.false_ne_true
      have explicit : i = i → ∀ q ∈ (p :: rest).head?, q.isImplicit = false := by
        intro _ q first
        obtain rfl := Option.some.inj first
        exact implicit
      rw [pass_explicit (Nat.le_refl i) explicit, explicitParameters,
        List.takeWhile_cons_of_neg other, List.dropWhile_cons_of_neg other]
      congr 2
      split <;> omega

end Count

namespace Arity

/-- The arity as a single pass counts it. -/
def count (ps : List Parameter) : Option Arity :=
  (Count.pass ps.length 0 ps ⟨0, 0⟩).bind fun c =>
    if collectsRest ps then some ⟨c.least, none⟩
    else (Nat.psub ps.length c.skipped).map fun most => ⟨c.least, some most⟩

theorem count_eq (ps : List Parameter) : count ps = some (.ofParameters ps) := by
  have passed := Count.pass_eq (i := 0) ps
  rw [Nat.zero_add, Nat.zero_add] at passed
  have counted : Nat.psub ps.length (ps.takeWhile Parameter.isImplicit).length =
      some (explicitParameters ps).length := by
    rw [Nat.psub_eq_some, explicitParameters, Nat.add_comm, ← List.length_append,
      List.takeWhile_append_dropWhile]
  rw [count, passed, Option.bind_some, ofParameters, counted]
  split <;> rfl

end Arity

end FlowLint
