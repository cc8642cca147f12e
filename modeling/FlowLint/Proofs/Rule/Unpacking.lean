import FlowLint.Proofs.Rule.Code
import FlowLint.Proofs.Walk

/-!
Calls that unpack an argument. How many values they pass is not known; the rule on the number of
arguments is silent about them, the one on formats is not.
-/

namespace FlowLint

/-- The call is one of a format function by its name, with a format that is known and that needs
another number of arguments than are written down. -/
def Call.Mismatched (call : Call Expr) : Prop :=
  ∃ function format, call.callee = .function (.direct function) ∧
    (Printf.formatFunction? function).isSome ∧
    call.arguments.head?.bind (·.value.constant) = some format ∧
    Printf.requiredArguments format.toText ≠ some call.arguments.length

namespace Context

variable (c : Context) (regions : Regions)

/-- What the checks of an expression itself find, the walk through its parts left out. -/
def own (e : Expr) : List Remark := ((c.visitor regions).look (.expr e) id .init).found

theorem own_eq (e : Expr) : c.own regions e = c.enterExpr e ++ c.leaveExpr e := by
  rw [own, look_eq]
  rfl

theorem own_call {e : Expr} {call : Call Expr} (form : e.form = .call call) :
    c.own regions e = c.callee e call ++ c.argumentCount e call := by
  rw [own_eq, enterExpr, leaveExpr, form]

theorem argumentCount_of_unpacks {e : Expr} {call : Call Expr} (unpacked : call.unpacks = true) :
    c.argumentCount e call = [] := by
  rw [argumentCount, if_pos unpacked]

/-- The format of a call is objected to exactly if it does not match. -/
theorem formatCount_of_not_mismatched {e : Expr} {call : Call Expr} {function : String}
    (direct : call.callee = .function (.direct function)) (fits : ¬ call.Mismatched) :
    formatCount e call function = [] := by
  unfold formatCount
  split
  · rename_i plain format known constant
    have equal : Printf.requiredArguments format.toText = some call.arguments.length := by
      by_contra different
      exact fits ⟨function, format, direct, by rw [known]; rfl, constant, different⟩
    simp [remarkIf, equal]
  · rfl

theorem mem_callee_of_mismatched {e : Expr} {call : Call Expr} (mismatched : call.Mismatched) :
    ∃ plain, ⟨e.span, .formatArgumentCount plain⟩ ∈ c.callee e call := by
  obtain ⟨function, format, direct, known, constant, different⟩ := mismatched
  obtain ⟨plain, named⟩ := Option.isSome_iff_exists.1 known
  refine ⟨plain, ?_⟩
  rw [callee, direct]
  refine List.mem_append_right _ ?_
  rw [formatCount, named, constant]
  exact mem_remarkIf.2 ⟨by simpa using different, rfl⟩

/-- Of a call that unpacks an argument, the checks of the call itself never say that there are too
few or too many arguments. They do say that the number does not match the format, if that is known
and the arguments as written do not match it. -/
theorem unpacked_exact {e : Expr} {call : Call Expr} (form : e.form = .call call)
    (unpacked : call.unpacks = true) :
    (∀ r ∈ c.own regions e, r.finding.code ≠ "W0209" ∧ r.finding.code ≠ "W0210") ∧
      ((∃ r ∈ c.own regions e, r.finding.code = "W0221") ↔ call.Mismatched) := by
  rw [own_call c regions form, c.argumentCount_of_unpacks unpacked, List.append_nil]
  have judged (codes : List String) (all : judgementCodes ⊆ codes) (value : Expr)
      (j : Judgement) : Within codes (c.judge value j) := Within.judge (all j.code_mem)
  refine ⟨fun r member => ?_, ?_, fun mismatched => ?_⟩
  · have known : r.finding.code ∈ calleeCodes ++ judgementCodes ++ ["W0221"] :=
      c.callee_within e call (by decide)
        (fun function _ => formatCount_within e call function (by decide))
        (fun value _ j _ => judged _ (by decide) value j) r member
    constructor <;>
    · intro same
      rw [same] at known
      revert known
      decide
  · intro ⟨r, member, code⟩
    by_contra fits
    have known : r.finding.code ∈ calleeCodes ++ judgementCodes :=
      c.callee_within e call (by decide)
        (fun function direct => by
          rw [formatCount_of_not_mismatched direct fits]
          exact Within.nil)
        (fun value _ j _ => judged _ (by decide) value j) r member
    rw [code] at known
    revert known
    decide
  · obtain ⟨plain, member⟩ := c.mem_callee_of_mismatched (e := e) mismatched
    exact ⟨_, member, rfl⟩

/-- Prints the two elements of an array that is unpacked. -/
def printedPair : Call Expr :=
  let format : Expr :=
    ⟨.literal (.text "%d-%d"), none, .any, ⟨true, false, false, false⟩, some (.text "%d-%d"), none⟩
  let pair : Expr :=
    ⟨.var ⟨.direct "pair", .ordinary, false⟩, none, .any, ⟨true, false, false, false⟩, none, none⟩
  ⟨.function (.direct "printf"), .unresolved, [⟨format, false⟩, ⟨pair, true⟩], none⟩

def printing : Expr :=
  ⟨.call printedPair, some ⟨6, 31⟩, .any, ⟨true, false, false, false⟩, none, none⟩

theorem printedPair_mismatched : printedPair.Mismatched :=
  ⟨"printf", .text "%d-%d", rfl, by decide +kernel, rfl, by decide +kernel⟩

theorem printing_unpacked :
    printing.form = .call printedPair ∧ printedPair.unpacks = true ∧
      ∃ r ∈ script.own .empty printing, r.finding.code = "W0221" :=
  ⟨rfl, rfl, (unpacked_exact script .empty rfl rfl).2.2 printedPair_mismatched⟩

/-- A call that unpacks an argument is not spared all objections to the number of arguments. -/
theorem unpacked_objected :
    ¬ ∀ (c : Context) (regions : Regions) (e : Expr) (call : Call Expr),
      e.form = .call call → call.unpacks = true →
        ∀ r ∈ c.own regions e, r.finding.code ∉ ["W0209", "W0210", "W0221"] := by
  intro silent
  obtain ⟨plain, member⟩ := script.mem_callee_of_mismatched (e := printing) printedPair_mismatched
  have own : ⟨printing.span, .formatArgumentCount plain⟩ ∈ script.own .empty printing := by
    rw [own_call script .empty rfl]
    exact List.mem_append_left _ member
  exact silent script .empty printing printedPair rfl rfl _ own (by simp [Finding.code])

end Context

end FlowLint
