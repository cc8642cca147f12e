import FlowLint.Proofs.Pool
import FlowLint.Proofs.Remark
import FlowLint.Proofs.Remask.Rule

/-!
Programs of which less is known. If masks are replaced by the one that selects every slot, or are
marked as those of values held by reference, no diagnostic is added, and those that are missing come
from judgements. The bit of a mask that has no meaning changes no diagnostic at all.
-/

namespace FlowLint

theorem Registry.concrete_of_has (r : Registry) {m m' : Mask} (same : m'.has = m.has) :
    r.concrete m' = r.concrete m := by
  rw [concrete, concrete, Mask.isAny, Mask.isAny, Mask.slots, Mask.slots, same]

namespace Mask

/-- The same slots, and held by reference or not in the same way. -/
structure Alike (m m' : Mask) : Prop where
  has : m'.has = m.has
  isRef : m'.isRef = m.isRef

namespace Alike

variable {m m' : Mask}

theorem refl (m : Mask) : Alike m m := ⟨rfl, rfl⟩

variable (alike : Alike m m')

include alike

theorem slots : m'.slots = m.slots := by rw [Mask.slots, alike.has, Mask.slots]

theorem isAny : m'.isAny = m.isAny := by rw [Mask.isAny, alike.has, Mask.isAny]

theorem isVoid : m'.isVoid = m.isVoid := by rw [Mask.isVoid, alike.slots, Mask.isVoid]

theorem isDecidable : m'.isDecidable = m.isDecidable := by
  rw [Mask.isDecidable, alike.isAny, alike.isRef, Mask.isDecidable]

theorem isSingle : m'.isSingle = m.isSingle := by
  rw [Mask.isSingle, alike.isRef, alike.slots, Mask.isSingle]

theorem concrete (r : Registry) : r.concrete m' = r.concrete m :=
  r.concrete_of_has alike.has

theorem single? (r : Registry) : r.single? m' = r.single? m := by
  rw [Registry.single?, alike.isSingle, alike.slots, Registry.single?]

theorem hasString (r : Registry) : r.hasString m' = r.hasString m := by
  rw [Registry.hasString, alike.concrete, Registry.hasString]

theorem hasObject (r : Registry) : r.hasObject m' = r.hasObject m := by
  rw [Registry.hasObject, alike.concrete, Registry.hasObject]

theorem onlyObjects (r : Registry) : r.onlyObjects m' = r.onlyObjects m := by
  rw [Registry.onlyObjects, alike.isDecidable, alike.isVoid, alike.concrete, Registry.onlyObjects]

theorem maybeCallable (r : Registry) : r.maybeCallable m' = r.maybeCallable m := by
  rw [Registry.maybeCallable, alike.isDecidable, alike.concrete, Registry.maybeCallable]

theorem render (r : Registry) : r.render m' = r.render m := by
  rw [Registry.render, alike.isRef, alike.isAny, alike.isVoid, alike.concrete, Registry.render]

end Alike

/-- The mask with the other value of the bit that has no meaning. -/
def flipSpare (m : Mask) : Mask := ⟨m.bits ^^^ BitVec.twoPow 64 slotCount⟩

theorem alike_flipSpare (m : Mask) : Alike m m.flipSpare where
  has := by
    funext i
    by_cases slot : i < slotCount
    · have other : slotCount ≠ i := by omega
      simp [has, flipSpare, other]
    · simp [has, slot]
  isRef := by simp [isRef, flipSpare, slotCount]

theorem has_withRef (m : Mask) : m.withRef.has = m.has := by
  funext i
  by_cases slot : i < slotCount
  · have other : 63 ≠ i := by
      unfold slotCount at slot
      omega
    simp [has, withRef, refBit, other]
  · simp [has, slot]

theorem isRef_withRef (m : Mask) : m.withRef.isRef = true := by
  simp [isRef, withRef, refBit]

/-- The second mask is the first or tells less. -/
inductive Blurred : Mask → Mask → Prop where
  | same (m : Mask) : Blurred m m
  | any (m : Mask) : Blurred m .any
  | withRef (m : Mask) : Blurred m m.withRef

/-- The masks differ in the bit that has no meaning, if at all. -/
inductive Toggled : Mask → Mask → Prop where
  | same (m : Mask) : Toggled m m
  | flip (m : Mask) : Toggled m m.flipSpare

theorem Toggled.alike {m m' : Mask} (toggled : Toggled m m') : Alike m m' := by
  cases toggled with
  | same => exact .refl m
  | flip => exact alike_flipSpare m

/-- A blurred mask is not decidable any more, and it selects a string only if that was so before. -/
theorem Blurred.eq_or_undecidable {m m' : Mask} (blurred : Blurred m m') :
    m' = m ∨ (m'.isDecidable = false ∧
      ∀ r : Registry, r.hasString m' = true → r.hasString m = true) := by
  cases blurred with
  | same => exact .inl rfl
  | any =>
    refine .inr ⟨by decide, fun r string => ?_⟩
    rw [r.hasString_of_isAny (by decide)] at string
    cases string
  | withRef =>
    refine .inr ⟨by simp [Mask.isDecidable, isRef_withRef], fun r string => ?_⟩
    rwa [Registry.hasString, r.concrete_of_has m.has_withRef] at string

end Mask

namespace Context

variable (c : Context) {value value' : Expr}

theorem judge_alike (span : value'.span = value.span) (hostType : value'.hostType = value.hostType)
    (alike : value.mask.Alike value'.mask) (j : Judgement) :
    c.judge value' j = c.judge value j := by
  cases j <;>
    simp only [judge, keyType, nonObject?, iteration, maybeString, span, hostType,
      alike.isDecidable, alike.isVoid, alike.concrete, alike.single?, alike.hasString,
      alike.hasObject, alike.onlyObjects, alike.maybeCallable, alike.render]

theorem receiverName_alike (alike : value.mask.Alike value'.mask) :
    c.receiverName value' = c.receiverName value := by
  simp only [receiverName, alike.single?, alike.render]

theorem tolerates_toggled : c.Tolerates Mask.Toggled Eq where
  refl _ := rfl
  append first second := by rw [first, second]
  judge remasked j :=
    (c.judge_alike remasked.span remasked.hostType remasked.mask.alike j).symm
  undefinedMethod remasked _ _ _ := by rw [c.receiverName_alike remasked.mask.alike]

end Context

/-- What is left of a list when entries that need not be kept are dropped. -/
structure Thinned {κ : Type} (keeps : κ → Bool) (whole left : List κ) : Prop where
  sublist : left.Sublist whole
  kept : left.filter keeps = whole.filter keeps

namespace Thinned

variable {κ ι : Type} {keeps : κ → Bool}

theorem refl (l : List κ) : Thinned keeps l l := ⟨.refl l, rfl⟩

theorem append {first first' second second' : List κ} (left : Thinned keeps first first')
    (right : Thinned keeps second second') :
    Thinned keeps (first ++ second) (first' ++ second') where
  sublist := left.sublist.append right.sublist
  kept := by rw [List.filter_append, List.filter_append, left.kept, right.kept]

theorem map {keeps : ι → Bool} {f : κ → ι} {whole left : List κ}
    (thinned : Thinned (fun a => keeps (f a)) whole left) :
    Thinned keeps (whole.map f) (left.map f) where
  sublist := thinned.sublist.map f
  kept := by
    have kept : left.filter (keeps ∘ f) = whole.filter (keeps ∘ f) := thinned.kept
    rw [List.filter_map, List.filter_map, kept]

theorem flatMap {α β : Type} {R : α → β → Prop} {f : α → List κ} {f' : β → List κ} {l : List α}
    {l' : List β} (related : List.Forall₂ R l l')
    (each : ∀ a b, R a b → Thinned keeps (f a) (f' b)) :
    Thinned keeps (l.flatMap f) (l'.flatMap f') :=
  related.flatMap_of_append (.refl []) (fun left right => left.append right) each

end Thinned

/-- Where a remark belongs and which code it has; what is left of it without the wording. -/
def Remark.mark (r : Remark) : Option Span × String := (r.span, r.finding.code)

def Diagnostic.mark (d : Diagnostic) : RoutineId × String × Span := (d.routine, d.code, d.span)

/-- Not the code of a judgement. -/
def settled (code : String) : Bool := code ∉ judgementCodes

/-- Some remarks of judgements are dropped, and others may be worded in another way. -/
def Dulled (whole left : List Remark) : Prop :=
  Thinned (fun mark => settled mark.2) (whole.map Remark.mark) (left.map Remark.mark)

namespace Dulled

theorem nil_of_within {rs : List Remark} (within : Within judgementCodes rs) : Dulled rs [] where
  sublist := List.nil_sublist _
  kept := by
    symm
    rw [List.map_nil, List.filter_nil, List.filter_eq_nil_iff]
    intro mark member
    obtain ⟨r, among, rfl⟩ := List.mem_map.1 member
    have judged : r.finding.code ∈ judgementCodes := within r among
    simp [settled, Remark.mark, judged]

theorem remarkIf {condition : Bool} {span : Option Span} {finding finding' : Finding}
    (same : finding'.code = finding.code) :
    Dulled (remarkIf condition span finding) (remarkIf condition span finding') := by
  have marks : (FlowLint.remarkIf condition span finding').map Remark.mark =
      (FlowLint.remarkIf condition span finding).map Remark.mark := by
    cases condition <;> simp [FlowLint.remarkIf, Remark.mark, same]
  rw [Dulled, marks]
  exact .refl _

theorem diagnostics {whole left : List Remark} (dulled : Dulled whole left) {id : RoutineId}
    {heading : Span} :
    Thinned (fun mark => settled mark.2.1)
      ((whole.map (·.diagnostic id heading)).map Diagnostic.mark)
      ((left.map (·.diagnostic id heading)).map Diagnostic.mark) := by
  let place (mark : Option Span × String) : RoutineId × String × Span :=
    (id, mark.2, mark.1.getD heading)
  have marks (rs : List Remark) :
      (rs.map (·.diagnostic id heading)).map Diagnostic.mark = (rs.map Remark.mark).map place := by
    rw [List.map_map, List.map_map]
    rfl
  rw [marks, marks]
  exact Thinned.map dulled

end Dulled

theorem Context.judge_blurred (c : Context) {value value' : Expr}
    (remasked : value.Remasked Mask.Blurred value') (j : Judgement) :
    Dulled (c.judge value j) (c.judge value' j) := by
  have judged : Within judgementCodes (c.judge value j) := Within.judge j.code_mem
  rcases remasked.mask.eq_or_undecidable with same | ⟨undecidable, string⟩
  · have alike : value.mask.Alike value'.mask := by
      rw [same]
      exact .refl _
    rw [c.judge_alike remasked.span remasked.hostType alike]
    exact .refl _
  · have silent (other : j ≠ .asserted)
        (unstored : ∀ method, j = .receiver method → value'.hostType = none) :
        Dulled (c.judge value j) (c.judge value' j) := by
      rw [c.judge_of_undecidable undecidable other unstored]
      exact .nil_of_within judged
    -- an asserted value is judged by its slots alone, and a receiver by what the host tells
    cases j with
    | asserted =>
      by_cases asserted : c.registry.hasString value'.mask = true
      · rw [judge, judge, asserted, string _ asserted, remasked.span]
        exact .refl _
      · rw [judge, judge, Bool.eq_false_iff.2 asserted]
        exact .nil_of_within judged
    | receiver method =>
      cases stored : value.hostType with
      | none => exact silent (by simp) fun _ _ => remasked.hostType.trans stored
      | some host =>
        have same : value'.hostType = some host := remasked.hostType.trans stored
        simp only [judge, nonObject?, stored, same, remasked.span]
        exact .refl _
    | _ => exact silent (by simp) (by simp)

theorem Context.tolerates_blurred (c : Context) : c.Tolerates Mask.Blurred Dulled where
  refl _ := .refl _
  append first second := by
    rw [Dulled, List.map_append, List.map_append]
    exact first.append second
  judge remasked j := c.judge_blurred remasked j
  undefinedMethod _ _ _ _ := Dulled.remarkIf rfl

namespace Routine.Remasked

variable {M : Mask → Mask → Prop} {r r' : Routine}

theorem diagnostics {T : List Remark → List Remark → Prop}
    {D : List Diagnostic → List Diagnostic → Prop} (remasked : r.Remasked M r')
    (symbols : SymbolTable) (tolerates : ∀ c : Context, c.Tolerates M T) (nothing : D [] [])
    (placed : ∀ id heading rs rs', T rs rs' →
      D (rs.map (·.diagnostic id heading)) (rs'.map (·.diagnostic id heading))) :
    D (r.diagnostics symbols) (r'.diagnostics symbols) := by
  have graphs := remasked.graph
  unfold Routine.diagnostics
  rw [remasked.symbol, remasked.registry]
  generalize r.graph = graph, r'.graph = graph' at graphs
  cases graphs with
  | none => exact nothing
  | some related =>
    cases symbols.routine? r.symbol with
    | none => exact nothing
    | some symbol => exact placed _ _ _ _ ((tolerates _).routine related)

end Routine.Remasked

namespace Program

variable {M : Mask → Mask → Prop} {p q : Program}

theorem Remasked.bodies (remasked : p.Remasked M q) :
    List.Forall₂ (Routine.Remasked M) p.bodies q.bodies :=
  (remasked.routines.filter fun _ _ related => related.graph.isSome_eq).mergeSort
    fun _ _ related => related.symbol

/-- If less is known of a program, the diagnostics are those of before in the same order, up to
their wording, but for some that come from judgements. If only bits without a meaning are other
ones, the diagnostics are the same. -/
theorem remasked_exact (valid : p.defect? = none) {s : Sink} (yields : p.Yields s) :
    (∀ q, p.Remasked Mask.Blurred q → q.defect? = none ∧ ∀ t, q.Yields t →
      (t.all.map Diagnostic.mark).Sublist (s.all.map Diagnostic.mark) ∧
        ((t.all.map Diagnostic.mark).filter fun mark => mark.2.1 ∉ judgementCodes) =
          (s.all.map Diagnostic.mark).filter fun mark => mark.2.1 ∉ judgementCodes) ∧
      ∀ q, p.Remasked Mask.Toggled q → q.defect? = none ∧ ∀ t, q.Yields t → t.all = s.all := by
  refine ⟨fun q remasked => ?_, fun q remasked => ?_⟩
  · have unchanged : q.defect? = none := remasked.defect?_eq.trans valid
    refine ⟨unchanged, fun t others => ?_⟩
    have thinned : Thinned (fun mark => settled mark.2.1) (s.all.map Diagnostic.mark)
        (t.all.map Diagnostic.mark) := by
      rw [yields.all_eq (defect?_eq_none_iff.1 valid),
        others.all_eq (defect?_eq_none_iff.1 unchanged), List.map_flatMap, List.map_flatMap,
        remasked.symbols]
      refine Thinned.flatMap remasked.bodies fun r r' related => ?_
      exact related.diagnostics (D := fun whole left => Thinned (fun mark => settled mark.2.1)
          (whole.map Diagnostic.mark) (left.map Diagnostic.mark)) _
        (fun c => c.tolerates_blurred) (.refl _) fun _ _ _ _ dulled => dulled.diagnostics
    exact ⟨thinned.sublist, thinned.kept⟩
  · have unchanged : q.defect? = none := remasked.defect?_eq.trans valid
    refine ⟨unchanged, fun t others => ?_⟩
    rw [yields.all_eq (defect?_eq_none_iff.1 valid),
      others.all_eq (defect?_eq_none_iff.1 unchanged), remasked.symbols]
    refine remasked.bodies.flatMap_eq fun r r' related => ?_
    symm
    exact related.diagnostics _ (T := Eq) (D := Eq) (fun c => c.tolerates_toggled) rfl
      fun _ _ _ _ same => by rw [same]

def countedBy (mask : Mask) : Expr :=
  ⟨.var ⟨.direct "count", .ordinary, false⟩, some ⟨12, 18⟩, mask, ⟨true, false, false, false⟩,
    none, none⟩

def cloneOf (mask : Mask) : Expr :=
  ⟨.unary .clone (countedBy mask), some ⟨6, 18⟩, .any, ⟨true, false, false, false⟩, none, none⟩

def cloningGraph (mask : Mask) : Graph :=
  { start := 0
    exit := 1
    blocks :=
      [⟨0, .start, [⟨.expression (cloneOf mask), some ⟨6, 19⟩⟩], some (.jump 1)⟩,
       ⟨1, .exit, [], none⟩]
    labels := []
    unreachable := [] }

def cloning (mask : Mask) : Program :=
  { symbols := ⟨[], [Context.script.symbol]⟩
    routines := [⟨0, some (cloningGraph mask), .ofList [.integer]⟩] }

theorem cloning_valid (mask : Mask) : (cloning mask).Valid where
  declared := by simp [cloning, SymbolTable.routine?]
  distinct := List.nodup_singleton _
  sound := by
    intro r member g body
    obtain rfl := List.mem_singleton.1 member
    obtain rfl := Option.some.inj body
    constructor
    · simp [Ascending, cloningGraph]
    · simp [Graph.references, cloningGraph, Edge.targets]

theorem cloning_remasked {m m' : Mask} (refl : ∀ m, M m m) (related : M m m') :
    (cloning m).Remasked M (cloning m') := by
  have counted : (countedBy m).Remasked M (countedBy m') := by
    refine .intro (.intro (.var ⟨.direct "count", .ordinary, false⟩) ?_) related
    simp [Form.exprs, Form.parts, Name.parts]
  have cloned : (cloneOf m).Remasked M (cloneOf m') := by
    refine .intro (.intro (.unary .clone (countedBy m, countedBy m')) ?_) (refl _)
    intro pair member
    obtain rfl := List.mem_singleton.1 member
    exact counted
  have blocks : List.Forall₂ (Block.Remasked M) (cloningGraph m).blocks (cloningGraph m').blocks :=
    .cons ⟨rfl, .start, .cons ⟨.expression cloned, rfl⟩ .nil, .some (.jump 1)⟩
      (.cons ⟨rfl, .exit, .nil, .none⟩ .nil)
  exact ⟨rfl, .cons ⟨rfl, .some ⟨rfl, rfl, blocks, rfl, rfl⟩, rfl⟩ .nil⟩

theorem cloning_found :
    ⟨0, ⟨6, 18⟩, .cloneOfNonObject "int"⟩ ∈ (cloning (.ofSlot 0)).analyze.all := by
  have valid := cloning_valid (.ofSlot 0)
  let r : Routine := ⟨0, some (cloningGraph (.ofSlot 0)), .ofList [.integer]⟩
  let c := r.context (cloning (.ofSlot 0)).symbols Context.script.symbol
  have sorted := (valid.sound r List.mem_cons_self _ rfl).sorted
  have inside : .expr (cloneOf (.ofSlot 0)) ∈ (cloningGraph (.ofSlot 0)).entered :=
    Graph.expr_mem_entered sorted List.mem_cons_self rfl List.mem_cons_self List.mem_cons_self
  have leaving : ⟨some ⟨6, 18⟩, .cloneOfNonObject "int"⟩ ∈
      c.leave (.expr (cloneOf (.ofSlot 0))) := by
    change _ ∈ c.clone (cloneOf (.ofSlot 0)) (countedBy (.ofSlot 0))
    rw [Context.clone, mem_remarkIf]
    exact ⟨by decide, by decide⟩
  have made := r.mem_diagnostics_of_node rfl rfl inside (.inr leaving)
  exact ((yields_analyze _).mem_all_iff valid).2 ⟨r, List.mem_cons_self, made⟩

theorem cloning_dulled :
    (cloning (.ofSlot 0)).defect? = none ∧
      (cloning (.ofSlot 0)).Remasked Mask.Blurred (cloning .any) ∧
      (cloning (.ofSlot 0)).Remasked Mask.Toggled (cloning (Mask.ofSlot 0).flipSpare) ∧
      ((cloning .any).analyze.all.map Diagnostic.mark).Sublist
        ((cloning (.ofSlot 0)).analyze.all.map Diagnostic.mark) ∧
      ⟨0, ⟨6, 18⟩, .cloneOfNonObject "int"⟩ ∈ (cloning (Mask.ofSlot 0).flipSpare).analyze.all := by
  have valid := defect?_eq_none_iff.2 (cloning_valid (.ofSlot 0))
  have blurred : (cloning (.ofSlot 0)).Remasked Mask.Blurred (cloning .any) :=
    cloning_remasked .same (.any _)
  have toggled : (cloning (.ofSlot 0)).Remasked Mask.Toggled (cloning (Mask.ofSlot 0).flipSpare) :=
    cloning_remasked .same (.flip _)
  obtain ⟨thinned, same⟩ := remasked_exact valid (yields_analyze _)
  refine ⟨valid, blurred, toggled, ((thinned _ blurred).2 _ (yields_analyze _)).1, ?_⟩
  rw [(same _ toggled).2 _ (yields_analyze _)]
  exact cloning_found

end Program

end FlowLint
