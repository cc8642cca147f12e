import FlowLint.Rule.Call
import FlowLint.Rule.Statement
import FlowLint.Rule.Value

namespace FlowLint

namespace Mask

theorem length_slots_of_isAny {m : Mask} (any : m.isAny = true) : m.slots.length = slotCount := by
  have all : m.slots = List.range slotCount := by
    rw [slots, List.filter_eq_self]
    intro i member
    exact isAny_iff.1 any i (List.mem_range.1 member)
  rw [all, List.length_range]

theorem isSingle_of_undecidable {m : Mask} (undecidable : m.isDecidable = false) :
    m.isSingle = false := by
  cases any : m.isAny with
  | false =>
    have ref : m.isRef = true := by simpa [isDecidable, any] using undecidable
    simp [isSingle, ref]
  | true => simp [isSingle, length_slots_of_isAny any, slotCount]

end Mask

namespace Registry

variable (r : Registry) {m : Mask}

theorem single?_of_undecidable (undecidable : m.isDecidable = false) : r.single? m = none := by
  rw [single?, Mask.isSingle_of_undecidable undecidable]
  rfl

theorem maybeCallable_of_undecidable (undecidable : m.isDecidable = false) :
    r.maybeCallable m = true := by
  rw [maybeCallable, undecidable]
  rfl

theorem hasString_of_isAny (any : m.isAny = true) : r.hasString m = false := by
  rw [hasString, concrete, if_pos any]
  rfl

end Registry

/-- The place for which a value is judged. Some judgements are reported at the span of the whole
that the value is a part of. -/
inductive Judgement where
  | key
  | callee (span : Option Span)
  | receiver (method : String)
  | cloned (span : Option Span)
  | cast (span : Option Span) (target : ValueType)
  | asserted
  | iterated
  | returned (span : Option Span)

def Judgement.code : Judgement → String
  | key => "W0203"
  | callee _ => "E0111"
  | receiver _ => "W0219"
  | cloned _ => "W0217"
  | cast _ _ => "I0302"
  | asserted => "W0216"
  | iterated => "W0220"
  | returned _ => "W0207"

def judgementCodes : List String :=
  ["W0203", "W0207", "W0216", "W0217", "W0219", "W0220", "E0111", "I0302"]

theorem Judgement.code_mem (j : Judgement) : j.code ∈ judgementCodes := by
  cases j <;> simp [code, judgementCodes]

namespace Context

variable (c : Context)

def notAString : Finding :=
  .toStringWithoutString ((c.owner.map TypeSymbol.qualifiedName).getD c.symbol.name)

def judge (value : Expr) : Judgement → List Remark
  | .key => c.keyType value
  | .callee span =>
    remarkIf (!c.registry.maybeCallable value.mask) span
      (.notCallable (c.registry.render value.mask))
  | .receiver method =>
    (c.nonObject? value).toList.map fun type => ⟨value.span, .methodOfNonObject method type⟩
  | .cloned span =>
    remarkIf (value.mask.isDecidable && !c.registry.onlyObjects value.mask) span
      (.cloneOfNonObject (c.registry.render value.mask))
  | .cast span target =>
    remarkIf (span.isSome && c.registry.single? value.mask == some target) span .redundantCast
  | .asserted => remarkIf (c.registry.hasString value.mask) value.span .assertionOfString
  | .iterated => c.iteration value
  | .returned span => remarkIf (c.symbol.isToString && !c.maybeString value) span c.notAString

theorem judge_code (value : Expr) (j : Judgement) :
    ∀ r ∈ c.judge value j, r.finding.code = j.code := by
  intro r member
  cases j with
  | receiver method =>
    obtain ⟨type, -, rfl⟩ := List.mem_map.1 member
    rfl
  | _ =>
    rw [(mem_remarkIf.1 member).2]
    rfl

/-- Of a value whose mask is undecidable nothing can be said, unless it is asserted, or it is a
receiver and the host tells what is stored. -/
theorem judge_of_undecidable {value : Expr} {j : Judgement}
    (undecidable : value.mask.isDecidable = false) (other : j ≠ .asserted)
    (unstored : ∀ method, j = .receiver method → value.hostType = none) : c.judge value j = [] := by
  cases j with
  | key => simp [judge, keyType, remarkIf, undecidable]
  | callee => simp [judge, remarkIf, c.registry.maybeCallable_of_undecidable undecidable]
  | receiver method => simp [judge, nonObject?, unstored method rfl, undecidable]
  | cloned => simp [judge, remarkIf, undecidable]
  | cast => simp [judge, remarkIf, c.registry.single?_of_undecidable undecidable]
  | asserted => exact absurd rfl other
  | iterated => simp [judge, iteration, remarkIf, undecidable]
  | returned => simp [judge, remarkIf, maybeString, undecidable]

theorem clone_eq (e operand : Expr) : c.clone e operand = c.judge operand (.cloned e.span) := rfl

theorem redundantCast_eq (e : Expr) (target : ValueType) (operand : Expr) :
    c.redundantCast e target operand = c.judge operand (.cast e.span target) := rfl

theorem functionCall_indirect (e : Expr) (call : Call Expr) (callee : Expr) :
    c.functionCall e call (.indirect callee) = c.judge callee (.callee e.span) := rfl

theorem methodCall_eq (e : Expr) (call : Call Expr) (receiver : Expr) (name : Name Expr) :
    c.methodCall e call receiver name =
      c.judge receiver (.receiver (methodName name)) ++ c.deprecation e call ++
        remarkIf (call.target == .missing) (call.nameSpan.or e.span)
          (.undefinedMethod (c.receiverName receiver) (methodName name)) := rfl

theorem assertion_cons (e : Expr) (first : Argument Expr) (rest : List (Argument Expr)) :
    c.assertion e (first :: rest) =
      remarkIf (first.value.constant.any Constant.isFalse) e.span .assertionFails ++
        c.judge first.value .asserted ++
        remarkIf (2 < (first :: rest).length) e.span
          (.tooManyArguments "assert" 2 (first :: rest).length) := rfl

theorem items_cons (seen : List ArrayKey) (item : ArrayItem Expr) (rest : List (ArrayItem Expr)) :
    c.items seen (item :: rest) =
      match item.key with
      | none => c.items seen rest
      | some key =>
        c.judge key .key ++
        match key.constant.bind Constant.arrayKey with
        | none => c.items seen rest
        | some k =>
          remarkIf (k ∈ seen) (key.span.or item.value.span) (.duplicateKey k.toText) ++
            c.items (k :: seen) rest := rfl

/-- A conversion method returns a value that is judged, or none at all. -/
theorem returnStatement_eq (around : Surroundings) (s : Statement) (value : Option Expr) :
    c.returnStatement around s value =
      value.elim (remarkIf c.symbol.isToString s.span c.notAString)
          (c.judge · (.returned s.span)) ++
        remarkIf (c.symbol.returnsVoid && value.isSome) s.span .voidReturnsValue ++
        remarkIf (s.span.isSome && around.inFinal) s.span
          (.notImplemented "return from 'finally' block") := by
  cases value <;> simp [returnStatement, judge, notAString]

end Context

end FlowLint
