import FlowLint.Proofs.Rule.Unpacking
import FlowLint.Proofs.Symbol.Arity

/-!
How many arguments a call may pass. A call passes too few if they end before a parameter that must
be given, and too many if they go on behind the last parameter. The numbers between are all right,
and the bounds that are counted in one pass over the parameters are theirs.
-/

namespace FlowLint

/-- A parameter that must be given stands at the position or behind it. Leading parameters that the
compiler fills in do not count; a variadic parameter may be left out if it is the last. -/
def RequiresBeyond (ps : List Parameter) (n : Nat) : Prop :=
  ∃ i p, n ≤ i ∧ (explicitParameters ps)[i]? = some p ∧ p.isOptional = false ∧
    p.hasDefault = false ∧ ¬ (p.isVariadic = true ∧ i + 1 = (explicitParameters ps).length)

def Accepts (ps : List Parameter) (n : Nat) : Prop :=
  ¬ RequiresBeyond ps n ∧
    (n ≤ (explicitParameters ps).length ∨ ∃ p, ps.getLast? = some p ∧ p.isVariadic = true)

theorem Count.isRequired_iff {total i : Nat} {p : Parameter} :
    isRequired total i p = true ↔
      p.isOptional = false ∧ p.hasDefault = false ∧ ¬ (p.isVariadic = true ∧ i + 1 = total) := by
  simp only [isRequired, Parameter.isOptionalLike, Bool.and_eq_true, Bool.not_eq_true',
    Bool.or_eq_false_iff, Bool.or_eq_true, bne_iff_ne, and_assoc]
  grind

/-- The count goes up to the last parameter that must be given. -/
theorem lt_leastArguments_iff {qs : List Parameter} {n : Nat} :
    n < leastArguments qs ↔
      ∃ i p, n ≤ i ∧ qs[i]? = some p ∧ Count.isRequired qs.length i p = true := by
  induction qs generalizing n with
  | nil => simp [leastArguments]
  | cons q rest ih =>
    have whole : 0 + 1 + rest.length = (q :: rest).length := by
      rw [List.length_cons]
      omega
    -- what must be given is the head, or stands one further than in the rest
    have split : (∃ i p, n ≤ i ∧ (q :: rest)[i]? = some p ∧
        Count.isRequired (q :: rest).length i p = true) ↔
          (n = 0 ∧ Count.isRequired (q :: rest).length 0 q = true) ∨
            n - 1 < leastArguments rest := by
      rw [ih]
      constructor
      · rintro ⟨i, p, less, here, required⟩
        cases i with
        | zero =>
          obtain rfl := Option.some.inj here
          exact .inl ⟨Nat.le_zero.1 less, required⟩
        | succ i =>
          refine .inr ⟨i, p, by omega, here, ?_⟩
          simpa [Count.isRequired] using required
      · rintro (⟨rfl, required⟩ | ⟨i, p, less, here, required⟩)
        · exact ⟨0, q, Nat.le_refl 0, rfl, required⟩
        · refine ⟨i + 1, p, by omega, here, ?_⟩
          simpa [Count.isRequired] using required
    rw [split, Count.leastArguments_cons (i := 0), whole]
    split <;> grind

theorem leastArguments_le_length (qs : List Parameter) : leastArguments qs ≤ qs.length := by
  by_contra more
  obtain ⟨i, p, beyond, here, -⟩ := lt_leastArguments_iff.1 (Nat.not_le.1 more)
  rw [List.getElem?_eq_none beyond] at here
  cases here

namespace Arity

variable {ps : List Parameter} {n : Nat}

theorem requiresBeyond_iff : RequiresBeyond ps n ↔ n < (ofParameters ps).least := by
  simp only [RequiresBeyond, ofParameters, lt_leastArguments_iff, Count.isRequired_iff]

theorem collectsRest_iff : collectsRest ps = true ↔
    ∃ p, ps.getLast? = some p ∧ p.isVariadic = true := by
  rw [collectsRest, Option.any_eq_true]

theorem most_eq_some_iff {most : Nat} : (ofParameters ps).most = some most ↔
    collectsRest ps = false ∧ most = (explicitParameters ps).length := by
  rw [ofParameters]
  cases collectsRest ps <;> simp [eq_comm]

theorem least_le_most {most : Nat} (bounded : (ofParameters ps).most = some most) :
    (ofParameters ps).least ≤ most := by
  rw [(most_eq_some_iff.1 bounded).2]
  exact leastArguments_le_length _

theorem accepts_iff : Accepts ps n ↔
    (ofParameters ps).least ≤ n ∧ ∀ most, (ofParameters ps).most = some most → n ≤ most := by
  rw [Accepts, requiresBeyond_iff, Nat.not_lt, ← collectsRest_iff]
  refine and_congr_right fun _ => ?_
  simp only [most_eq_some_iff]
  cases collectsRest ps <;> simp

end Arity

namespace Context

variable (c : Context) (regions : Regions) {e : Expr} {call : Call Expr} {target : RoutineSymbol}

theorem callee_uncounted (e : Expr) (call : Call Expr) :
    ∀ r ∈ c.callee e call, r.finding.code ∉ ["W0209", "W0210"] := by
  intro r member
  have known : r.finding.code ∈ calleeCodes ++ judgementCodes ++ ["W0221"] :=
    c.callee_within e call (by decide)
      (fun function _ => formatCount_within e call function (by decide))
      (fun value _ j _ => Within.judge (List.mem_append_left _
        (List.mem_append_right _ j.code_mem))) r member
  revert known
  generalize r.finding.code = code
  revert code
  decide

theorem mem_own_counted_iff (form : e.form = .call call) {r : Remark}
    (counted : r.finding.code ∈ ["W0209", "W0210"]) :
    r ∈ c.own regions e ↔ r ∈ c.argumentCount e call := by
  rw [own_call c regions form, List.mem_append, or_iff_right]
  exact fun member => c.callee_uncounted e call r member counted

theorem mem_argumentCount_iff (packed : call.unpacks = false)
    (resolved : c.target? call.target = some target) {r : Remark} :
    r ∈ c.argumentCount e call ↔
      (call.arguments.length < target.arity.least ∧
        r = ⟨e.span, .missingArguments (c.calledName call.callee target) target.arity.least
          call.arguments.length⟩) ∨
      (target.arity.least ≤ call.arguments.length ∧
        ∃ most, target.arity.most = some most ∧ most < call.arguments.length ∧
          r = ⟨e.span, .tooManyArguments (c.calledName call.callee target) most
            call.arguments.length⟩) := by
  rw [argumentCount, if_neg (by simp [packed]), resolved]
  dsimp only
  by_cases few : call.arguments.length < target.arity.least
  · simp [few, Nat.not_le.2 few]
  · rw [if_neg few]
    cases target.arity.most <;> simp [few, Nat.not_lt.1 few, mem_remarkIf]

/-- A call of a known routine that unpacks nothing is told that it passes too few arguments exactly
if they end before a parameter that must be given, and else that it passes too many exactly if
there are more of them than parameters and the last one does not collect the rest. The bounds that
are counted are consistent, the one that is reported is the least number that is all right, and the
numbers that are all right are those between the bounds. -/
theorem argumentCount_exact (form : e.form = .call call) (packed : call.unpacks = false)
    (resolved : c.target? call.target = some target) :
    ((∃ r ∈ c.own regions e, r.finding.code = "W0209") ↔
      RequiresBeyond target.parameters call.arguments.length) ∧
    ((∃ r ∈ c.own regions e, r.finding.code = "W0210") ↔
      ¬ RequiresBeyond target.parameters call.arguments.length ∧
        (explicitParameters target.parameters).length < call.arguments.length ∧
        ∀ p, target.parameters.getLast? = some p → p.isVariadic = false) ∧
    ∃ a, Arity.count target.parameters = some a ∧
      (∀ most, a.most = some most → a.least ≤ most) ∧
      (∀ r ∈ c.own regions e, r.finding.code = "W0209" →
        ∃ routine, r.finding = .missingArguments routine a.least call.arguments.length) ∧
      Accepts target.parameters a.least ∧
      ∀ n, Accepts target.parameters n ↔
        a.least ≤ n ∧ ∀ most, a.most = some most → n ≤ most := by
  have missing {r : Remark} (member : r ∈ c.own regions e) (code : r.finding.code = "W0209") :
      call.arguments.length < target.arity.least ∧ ∃ routine,
        r.finding = .missingArguments routine target.arity.least call.arguments.length := by
    rw [c.mem_own_counted_iff regions form (by simp [code]),
      c.mem_argumentCount_iff packed resolved] at member
    obtain ⟨few, rfl⟩ | ⟨-, most, -, -, rfl⟩ := member
    · exact ⟨few, _, rfl⟩
    · simp [Finding.code] at code
  refine ⟨⟨?_, fun requires => ?_⟩, ⟨?_, ?_⟩, target.arity, Arity.count_eq _,
    fun most => Arity.least_le_most, fun r member code => (missing member code).2,
    Arity.accepts_iff.2 ⟨Nat.le_refl _, fun most => Arity.least_le_most⟩,
    fun n => Arity.accepts_iff⟩
  · rintro ⟨r, member, code⟩
    exact Arity.requiresBeyond_iff.2 (missing member code).1
  · refine ⟨_, (c.mem_own_counted_iff regions form ?_).2
      ((c.mem_argumentCount_iff packed resolved).2
        (.inl ⟨Arity.requiresBeyond_iff.1 requires, rfl⟩)), rfl⟩
    exact List.mem_cons_self
  · rintro ⟨r, member, code⟩
    rw [c.mem_own_counted_iff regions form (by simp [code]),
      c.mem_argumentCount_iff packed resolved] at member
    obtain ⟨-, rfl⟩ | ⟨enough, most, bounded, more, rfl⟩ := member
    · simp [Finding.code] at code
    · obtain ⟨ends, rfl⟩ := Arity.most_eq_some_iff.1 bounded
      refine ⟨mt Arity.requiresBeyond_iff.1 (Nat.not_lt.2 enough), more, ?_⟩
      simpa [collectsRest, Option.any_eq_false] using ends
  · rintro ⟨enough, more, ends⟩
    have bounded : target.arity.most = some (explicitParameters target.parameters).length := by
      refine Arity.most_eq_some_iff.2 ⟨?_, rfl⟩
      simpa [collectsRest, Option.any_eq_false] using ends
    rw [Arity.requiresBeyond_iff, Nat.not_lt] at enough
    refine ⟨_, (c.mem_own_counted_iff regions form ?_).2
      ((c.mem_argumentCount_iff packed resolved).2 (.inr ⟨enough, _, bounded, more, rfl⟩)), rfl⟩
    exact List.mem_cons_of_mem _ List.mem_cons_self

/-- Of five parameters, the first is filled in by the compiler. The variadic one is not the last, so
that it must be given, and so must the one before it. -/
def searching : RoutineSymbol :=
  ⟨"search", .function, none,
    [⟨"scope", 0, false, false, true, false, none⟩, ⟨"case", 1, true, false, false, false, none⟩,
     ⟨"for", 2, false, false, false, false, none⟩, ⟨"among", 3, false, true, false, false, none⟩,
     ⟨"limit", 4, false, false, true, true, none⟩],
    false, false, none, none, ⟨0, 0⟩⟩

def library : Context := { script with symbols := ⟨[], [searching]⟩ }

def number : Expr := ⟨.literal (.int 1), none, .any, ⟨true, false, false, false⟩, none, none⟩

def shortCall : Call Expr :=
  ⟨.function (.direct "search"), .resolved 0, [⟨number, false⟩, ⟨number, false⟩], none⟩

def searchingShortly : Expr :=
  ⟨.call shortCall, some ⟨6, 20⟩, .any, ⟨true, false, false, false⟩, none, none⟩

theorem shortCall_counted :
    searchingShortly.form = .call shortCall ∧ shortCall.unpacks = false ∧
      library.target? shortCall.target = some searching ∧
      (∃ r ∈ library.own .empty searchingShortly, r.finding.code = "W0209") ∧
      Arity.count searching.parameters = some ⟨3, some 4⟩ ∧
      Accepts searching.parameters 4 ∧ ¬ Accepts searching.parameters 5 := by
  have form : searchingShortly.form = .call shortCall := rfl
  have resolved : library.target? shortCall.target = some searching := rfl
  have counted : Arity.count searching.parameters = some ⟨3, some 4⟩ := rfl
  obtain ⟨missing, -, a, counts, -, -, -, accepts⟩ :=
    argumentCount_exact library .empty form rfl resolved
  obtain rfl := Option.some.inj (counted.symm.trans counts)
  refine ⟨form, rfl, resolved, missing.2 ?_, counted, ?_, ?_⟩
  · exact
      ⟨2, ⟨"among", 3, false, true, false, false, none⟩, Nat.le_refl 2, rfl, rfl, rfl, by decide⟩
  · simp [accepts]
  · simp [accepts]

end Context

end FlowLint
