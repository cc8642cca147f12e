import FlowLint.Proofs.Remark
import FlowLint.Proofs.Rule.Unpacking
import FlowLint.Proofs.Value.Registry
import Mathlib.Data.Finset.Card

/-!
Array literals. What is said of an item depends on its own key and on the known keys of the items in
front of it, so that there are as many repeated keys as there are known keys, less the different
ones among them. What other literals hold, and what stands inside the keys and the values, makes no
difference.
-/

namespace FlowLint

/-- The key under which the value is stored, if it is known before the program runs. -/
def ArrayItem.storedKey? (item : ArrayItem Expr) : Option ArrayKey :=
  item.key.bind fun key => key.constant.bind Constant.arrayKey

/-- What of an item the rule looks at: the place, the mask and the constant of its key, and the
place of its value. What the two are made of is left out. -/
def ArrayItem.outline (item : ArrayItem Expr) :
    Option (Option Span × Mask × Option Constant) × Option Span :=
  (item.key.map fun key => (key.span, key.mask, key.constant), item.value.span)

/-- The mask can be relied on, and it selects nothing or some type that keys cannot have. -/
def Registry.Bars (r : Registry) (m : Mask) : Prop :=
  m.isDecidable = true ∧
    (m.isVoid = true ∨ ∃ i t, m.has i = true ∧ r.types[i]? = some t ∧ t.isKey = false)

theorem Registry.bars_iff {r : Registry} {m : Mask} :
    (m.isDecidable && (m.isVoid || !(r.concrete m).all ValueType.isKey)) = true ↔ r.Bars m := by
  rw [Bool.and_eq_true, Bars]
  refine and_congr_right fun decidable => ?_
  have known : m.isAny = false := (Mask.isDecidable_iff.1 decidable).1
  rw [Bool.or_eq_true, Bool.not_eq_true', List.all_eq_false]
  simp only [mem_concrete_iff_getElem? known, Bool.not_eq_true]
  refine or_congr_right ⟨?_, ?_⟩
  · rintro ⟨t, ⟨i, selected, here⟩, barred⟩
    exact ⟨i, t, selected, here, barred⟩
  · rintro ⟨i, t, selected, here, barred⟩
    exact ⟨t, ⟨i, selected, here⟩, barred⟩

instance (r : Registry) (m : Mask) : Decidable (r.Bars m) := decidable_of_iff _ Registry.bars_iff

def Node.literal? : Node → Option Expr
  | .expr e =>
    match e.form with
    | .array _ => some e
    | _ => none
  | _ => none

theorem Node.form_of_literal? {n : Node} {e : Expr} (own : n.literal? = some e) :
    ∃ list, e.form = .array list := by
  unfold literal? at own
  split at own
  · split at own
    · rename_i list form
      obtain rfl := Option.some.inj own
      exact ⟨list, form⟩
    · cases own
  · cases own

namespace Context

variable (c : Context)

/-- What is said of an item behind others: that keys cannot have the type of its key, and that one
of the others has the same key. -/
def ofItem (before : List (ArrayItem Expr)) (item : ArrayItem Expr) : List Remark :=
  match item.key with
  | none => []
  | some key =>
    remarkIf (c.registry.Bars key.mask) key.span
        (.illegalKeyType (c.registry.render key.mask)) ++
      match item.storedKey? with
      | none => []
      | some k =>
        remarkIf (∃ earlier ∈ before, earlier.storedKey? = some k) (key.span.or item.value.span)
          (.duplicateKey k.toText)

/-- The keys that were seen are those of the items before. -/
def Seen (before : List (ArrayItem Expr)) (seen : List ArrayKey) : Prop :=
  ∀ k, k ∈ seen ↔ ∃ earlier ∈ before, earlier.storedKey? = some k

theorem seen_nil : Seen [] [] := by simp [Seen]

theorem Seen.concat {before : List (ArrayItem Expr)} {seen : List ArrayKey}
    (known : Seen before seen) (item : ArrayItem Expr) :
    Seen (before ++ [item]) (item.storedKey?.toList ++ seen) := by
  intro k
  simp only [List.mem_append, Option.mem_toList, known k, List.mem_singleton,
    or_and_right, exists_or, exists_eq_left]
  exact or_comm

theorem keyType_eq (key : Expr) :
    c.keyType key = remarkIf (c.registry.Bars key.mask) key.span
      (.illegalKeyType (c.registry.render key.mask)) := by
  rw [keyType]
  congr 1
  rw [Bool.eq_iff_iff, decide_eq_true_iff]
  exact Registry.bars_iff

/-- One step: the item is told what its key calls for, and its key is remembered. -/
theorem items_step {before : List (ArrayItem Expr)} {seen : List ArrayKey}
    (known : Seen before seen) (item : ArrayItem Expr) (rest : List (ArrayItem Expr)) :
    c.items seen (item :: rest) =
      c.ofItem before item ++ c.items (item.storedKey?.toList ++ seen) rest := by
  rw [items, ofItem, ArrayItem.storedKey?]
  cases item.key with
  | none => rfl
  | some key =>
    dsimp only [Option.bind_some]
    rw [keyType_eq, List.append_assoc]
    congr 1
    cases key.constant.bind Constant.arrayKey with
    | none => rfl
    | some k =>
      have same : decide (k ∈ seen) = decide (∃ earlier ∈ before, earlier.storedKey? = some k) :=
        decide_eq_decide.2 (known k)
      dsimp only
      rw [same]
      rfl

theorem items_eq_flatMap {before : List (ArrayItem Expr)} {seen : List ArrayKey}
    (known : Seen before seen) (rest : List (ArrayItem Expr)) :
    c.items seen rest =
      (rest.zipIdx before.length).flatMap fun (item, i) =>
        c.ofItem ((before ++ rest).take i) item := by
  induction rest generalizing before seen with
  | nil => rfl
  | cons item rest ih =>
    have longer : (before ++ [item]).length = before.length + 1 := List.length_append
    have front : (before ++ item :: rest).take before.length = before := List.take_left
    rw [c.items_step known, ih (known.concat item), longer, List.append_assoc,
      List.singleton_append, List.zipIdx_cons, List.flatMap_cons]
    dsimp only
    rw [front]

theorem items_nil_eq (list : List (ArrayItem Expr)) :
    c.items [] list = list.zipIdx.flatMap fun (item, i) => c.ofItem (list.take i) item :=
  c.items_eq_flatMap seen_nil list

def isRepeat (r : Remark) : Bool := r.finding.code == "W0204"

theorem countP_ofItem {before : List (ArrayItem Expr)} {seen : List ArrayKey}
    (known : Seen before seen) (item : ArrayItem Expr) :
    (c.ofItem before item).countP isRepeat =
      item.storedKey?.elim 0 fun k => if k ∈ seen then 1 else 0 := by
  have barred (condition : Bool) (key : Expr) :
      (remarkIf condition key.span (.illegalKeyType (c.registry.render key.mask))).countP
        isRepeat = 0 := by
    cases condition <;> rfl
  unfold ofItem
  cases present : item.key with
  | none => simp [ArrayItem.storedKey?, present]
  | some key =>
    dsimp only
    rw [List.countP_append, barred, Nat.zero_add]
    cases item.storedKey? with
    | none => rfl
    | some k =>
      have same : (k ∈ seen) = ∃ earlier ∈ before, earlier.storedKey? = some k :=
        propext (known k)
      by_cases repeated : k ∈ seen
      · rw [same] at repeated
        simp [repeated, same, remarkIf, isRepeat, Finding.code]
      · rw [same] at repeated
        simp [repeated, same, remarkIf]

theorem countP_items {before : List (ArrayItem Expr)} {seen : List ArrayKey}
    (known : Seen before seen) (rest : List (ArrayItem Expr)) :
    (c.items seen rest).countP isRepeat +
        (seen ++ rest.filterMap ArrayItem.storedKey?).toFinset.card =
      seen.toFinset.card + (rest.filterMap ArrayItem.storedKey?).length := by
  induction rest generalizing before seen with
  | nil => simp [items]
  | cons item rest ih =>
    have tail := ih (known.concat item)
    rw [c.items_step known, List.countP_append, c.countP_ofItem known]
    cases key : item.storedKey? with
    | none =>
      rw [key] at tail
      rw [List.filterMap_cons_none key, Option.elim_none, Nat.zero_add]
      exact tail
    | some k =>
      -- the key is either seen already and adds nothing, or it is new and repeats nothing
      have grown : (k :: seen).toFinset.card + (if k ∈ seen then 1 else 0) =
          seen.toFinset.card + 1 := by
        rw [List.toFinset_cons, Finset.card_insert_eq_ite]
        by_cases repeated : k ∈ seen <;> simp [repeated]
      rw [key, Option.toList_some, List.singleton_append, List.cons_append] at tail
      rw [Option.toList_some, List.singleton_append, List.filterMap_cons_some key, Option.elim_some,
        List.toFinset_eq_of_perm _ _ List.perm_middle, List.length_cons]
      omega

/-- There are as many repeated keys as there are known ones, less the different ones. -/
theorem countP_arrayLiteral (e : Expr) (list : List (ArrayItem Expr)) :
    (c.arrayLiteral e list).countP isRepeat +
        (list.filterMap ArrayItem.storedKey?).toFinset.card =
      (list.filterMap ArrayItem.storedKey?).length := by
  have unread : (remarkIf e.access.isNone e.span .valueNotRead).countP isRepeat = 0 := by
    cases e.access.isNone <;> rfl
  have all := c.countP_items seen_nil list
  rw [List.nil_append, List.toFinset_nil, Finset.card_empty, Nat.zero_add] at all
  rw [arrayLiteral, List.countP_append, unread, Nat.zero_add, all]

theorem countP_arrayLiteral_of_perm {first second : List (ArrayItem Expr)}
    (perm : first.Perm second) (e f : Expr) :
    (c.arrayLiteral e first).countP isRepeat = (c.arrayLiteral f second).countP isRepeat := by
  have keys := perm.filterMap ArrayItem.storedKey?
  have one := c.countP_arrayLiteral e first
  have other := c.countP_arrayLiteral f second
  rw [List.toFinset_eq_of_perm _ _ keys, keys.length_eq] at one
  omega

theorem exists_illegalKey_iff {before : List (ArrayItem Expr)} {item : ArrayItem Expr} :
    (∃ r ∈ c.ofItem before item, r.finding.code = "W0203") ↔
      ∃ key, item.key = some key ∧ c.registry.Bars key.mask := by
  unfold ofItem
  cases item.key with
  | none => simp
  | some key =>
    constructor
    · rintro ⟨r, member, code⟩
      refine ⟨key, rfl, ?_⟩
      rcases List.mem_append.1 member with barred | repeated
      · exact of_decide_eq_true (mem_remarkIf.1 barred).1
      · split at repeated
        · cases repeated
        · rw [(mem_remarkIf.1 repeated).2] at code
          exact absurd code (by simp [Finding.code])
    · rintro ⟨other, same, barred⟩
      obtain rfl := Option.some.inj same
      exact ⟨_, List.mem_append_left _ (mem_remarkIf.2 ⟨decide_eq_true barred, rfl⟩), rfl⟩

theorem seen_filterMap (before : List (ArrayItem Expr)) :
    Seen before (before.filterMap ArrayItem.storedKey?) :=
  fun _ => List.mem_filterMap

theorem exists_isRepeat_iff {before : List (ArrayItem Expr)} {item : ArrayItem Expr} :
    (∃ r ∈ c.ofItem before item, isRepeat r = true) ↔
      ∃ k, item.storedKey? = some k ∧ ∃ earlier ∈ before, earlier.storedKey? = some k := by
  rw [← List.countP_pos_iff, c.countP_ofItem (seen_filterMap before)]
  cases item.storedKey? with
  | none => simp
  | some k => simp [Nat.pos_iff_ne_zero]

theorem items_congr {first second : List (ArrayItem Expr)}
    (same : first.map ArrayItem.outline = second.map ArrayItem.outline) (seen : List ArrayKey) :
    c.items seen first = c.items seen second := by
  induction first generalizing second seen with
  | nil =>
    rw [List.map_nil, eq_comm, List.map_eq_nil_iff] at same
    rw [same]
  | cons item rest ih =>
    obtain ⟨other, others, rfl, head, tail⟩ := List.map_eq_cons_iff.1 same.symm
    obtain ⟨keys, values⟩ := Prod.mk.inj head
    rw [items, items]
    cases present : item.key with
    | none =>
      rw [present, Option.map_none, Option.map_eq_none_iff] at keys
      rw [keys]
      exact ih tail.symm seen
    | some key =>
      rw [present, Option.map_some] at keys
      obtain ⟨key', listed, alike⟩ := Option.map_eq_some_iff.1 keys
      obtain ⟨spans, rest'⟩ := Prod.mk.inj alike
      obtain ⟨masks, constants⟩ := Prod.mk.inj rest'
      have judged : c.keyType key' = c.keyType key := by rw [keyType, keyType, masks, spans]
      rw [listed]
      dsimp only
      rw [judged, constants, spans, values]
      simp only [ih tail.symm]

def literalCodes : List String := ["W0202", "W0203", "W0204"]

def concernsLiteral (r : Remark) : Bool := r.finding.code ∈ literalCodes

theorem filter_of_within {codes : List String} {rs : List Remark} (within : Within codes rs)
    (apart : ∀ code ∈ codes, code ∉ literalCodes) : rs.filter concernsLiteral = [] :=
  within.filter_eq_nil fun _ chosen known => apart _ known (of_decide_eq_true chosen)

theorem filter_callee (e : Expr) (call : Call Expr) :
    (c.callee e call).filter concernsLiteral = [] := by
  let codes := calleeCodes ++ ["W0219", "W0221", "E0111"]
  have base : calleeCodes ⊆ codes := List.subset_append_left _ _
  have within : Within codes (c.callee e call) := by
    unfold callee
    cases call.callee with
    | function name =>
      cases name with
      | direct function =>
        exact c.functionCall_within e call _ base
          (fun f _ => formatCount_within e call f (by decide))
          fun value part => absurd part List.not_mem_nil
      | indirect value =>
        have judged : Within codes (c.judge value (.callee e.span)) :=
          Within.judge (show "E0111" ∈ codes by decide)
        exact judged
    | method receiver name =>
      have judged : Within codes (c.judge receiver (.receiver (methodName name))) :=
        Within.judge (show "W0219" ∈ codes by decide)
      have deprecated := c.deprecation_within e call (base (by decide))
      exact (judged.append deprecated).append (Within.remarkIf (show "W0212" ∈ codes by decide))
    | static type name => exact c.staticCall_within e call type name base
    | new type => exact c.instantiation_within e type base
  exact filter_of_within within (by decide)

theorem filter_leave (n : Node) : (c.leave n).filter concernsLiteral = [] := by
  let codes := ["W0209", "W0210", "W0215", "W0216", "W0217", "W0218", "W0220", "I0302"]
  have within : Within codes (c.leave n) := by
    unfold leave
    split
    · unfold leaveExpr
      split
      · exact Within.remarkIf (show "W0218" ∈ codes by decide)
      · exact Within.remarkIf (show "W0217" ∈ codes by decide)
      · exact Within.remarkIf (show "I0302" ∈ codes by decide)
      · exact c.assertion_within _ _ (by decide) fun first _ => Within.judge (by decide)
      · exact c.argumentCount_within _ _ (by decide)
      · exact Within.nil
    · exact Within.remarkIf (show "W0220" ∈ codes by decide)
    · exact Within.nil
  exact filter_of_within within (by decide)

theorem arrayLiteral_within (e : Expr) (list : List (ArrayItem Expr)) :
    Within literalCodes (c.arrayLiteral e list) :=
  (Within.remarkIf (by decide)).append
    (c.items_within [] (by decide) fun _ _ _ _ => Within.judge (by decide))

theorem filter_enter (around : Surroundings) (n : Node) :
    (c.enter around n).filter concernsLiteral = n.literal?.toList.flatMap c.enterExpr := by
  cases n with
  | block b => rfl
  | header h =>
    have within : Within ["E0104"] (h.types.flatMap primitiveMisuse) :=
      Within.flatMap fun t _ => primitiveMisuse_within t (List.mem_singleton.2 rfl)
    exact filter_of_within within (by decide)
  | statement s =>
    exact filter_of_within (c.statement_within around s (List.Subset.refl _)) (by decide)
  | edge e => rfl
  | type t =>
    exact filter_of_within (c.reference_within t (List.Subset.refl _)) (by decide)
  | expr e =>
    rw [enter, Node.literal?]
    cases form : e.form with
    | array list =>
      have own : c.enterExpr e = c.arrayLiteral e list := by rw [enterExpr, form]
      have all : (c.arrayLiteral e list).filter concernsLiteral = c.arrayLiteral e list :=
        List.filter_eq_self.2 fun r member =>
          decide_eq_true (c.arrayLiteral_within e list r member)
      simp [own, all]
    | var v =>
      rw [enterExpr, form]
      exact filter_of_within (variableUse_within e v (List.Subset.refl _)) (by decide)
    | assign target value =>
      rw [enterExpr, form]
      exact filter_of_within (selfAssignment_within e target value (List.mem_singleton.2 rfl))
        (by decide)
    | call call =>
      rw [enterExpr, form]
      exact c.filter_callee e call
    | eval code =>
      rw [enterExpr, form]
      rfl
    | instanceOf operand type =>
      rw [enterExpr, form]
      exact filter_of_within (primitiveMisuse_within type (List.mem_singleton.2 rfl)) (by decide)
    | field f =>
      have within : Within ["E0104"] (f.containingType.toList.flatMap primitiveMisuse) :=
        Within.flatMap fun t _ => primitiveMisuse_within t (List.mem_singleton.2 rfl)
      rw [enterExpr, form]
      exact filter_of_within within (by decide)
    | _ =>
      rw [enterExpr, form]
      rfl

theorem filter_routine_literals (g : Graph) :
    (c.routine g).filter concernsLiteral =
      (g.entered.filterMap Node.literal?).flatMap c.enterExpr := by
  rw [List.filterMap_eq_flatMap_toList, List.flatMap_assoc]
  exact c.read_routine rfl List.filter_append c.filter_enter c.filter_leave
    fun _ within => filter_of_within within (by decide)

theorem own_array (regions : Regions) {e : Expr} {list : List (ArrayItem Expr)}
    (form : e.form = .array list) : c.own regions e = c.arrayLiteral e list := by
  rw [own_eq, enterExpr, leaveExpr, form]
  exact List.append_nil _

theorem enterExpr_of_literal (regions : Regions) {n : Node} {e : Expr} (own : n.literal? = some e) :
    c.enterExpr e = c.own regions e := by
  obtain ⟨list, form⟩ := Node.form_of_literal? own
  rw [own_array c regions form, enterExpr, form]

/-- An array literal is told that its value is not read, if so, and then of each item in turn that
its key has a type that keys cannot have, and that an item before it has the same key. The keys that
are repeated are as many as the known ones, less the different ones among them, in whatever order
the items are listed. It only matters what the keys are known to be, not what they and the values
are made of, and a routine is told of these things by its array literals alone, each told of its
own items. -/
theorem arrayLiteral_exact (c : Context) (regions : Regions) {e : Expr}
    {list : List (ArrayItem Expr)} (form : e.form = .array list) :
    c.own regions e =
        remarkIf e.access.isNone e.span .valueNotRead ++
          list.zipIdx.flatMap (fun (item, i) => c.ofItem (list.take i) item) ∧
    (∀ before item,
      ((∃ r ∈ c.ofItem before item, r.finding.code = "W0203") ↔
        ∃ key, item.key = some key ∧ c.registry.Bars key.mask) ∧
      ((∃ r ∈ c.ofItem before item, isRepeat r = true) ↔
        ∃ k, item.storedKey? = some k ∧ ∃ earlier ∈ before, earlier.storedKey? = some k)) ∧
    (c.own regions e).countP isRepeat + (list.filterMap ArrayItem.storedKey?).toFinset.card =
      (list.filterMap ArrayItem.storedKey?).length ∧
    (∀ f other, f.form = .array other → other.Perm list →
      (c.own regions f).countP isRepeat = (c.own regions e).countP isRepeat) ∧
    (∀ f other, f.form = .array other → f.span = e.span → f.access = e.access →
      other.map ArrayItem.outline = list.map ArrayItem.outline →
        c.own regions f = c.own regions e) ∧
    ∀ g, (c.routine g).filter concernsLiteral =
      (g.entered.filterMap Node.literal?).flatMap (c.own regions) := by
  rw [own_array c regions form]
  refine ⟨?_, fun before item => ⟨c.exists_illegalKey_iff, c.exists_isRepeat_iff⟩,
    c.countP_arrayLiteral e list, ?_, ?_, fun g => ?_⟩
  · rw [arrayLiteral, items_nil_eq]
  · intro f other array perm
    rw [own_array c regions array, c.countP_arrayLiteral_of_perm perm f e]
  · intro f other array span access same
    rw [own_array c regions array, arrayLiteral, arrayLiteral, c.items_congr same, span, access]
  · rw [filter_routine_literals]
    apply List.flatMap_congr
    intro f literal
    obtain ⟨n, -, own⟩ := List.mem_filterMap.1 literal
    exact c.enterExpr_of_literal regions own

/-- Stores something under a number, and an array with the same key under the text of that number,
whose type is thought to be an array. -/
def repeatedItems : List (ArrayItem Expr) :=
  let whole (form : Form Expr) (mask : Mask) (constant : Option Constant) : Expr :=
    ⟨form, some ⟨6, 20⟩, mask, ⟨true, false, false, false⟩, constant, none⟩
  let one : Expr := whole (.literal (.int 1)) (.ofSlot 0) (some (.int 1))
  let text : Expr := whole (.literal (.text "1")) (.ofSlot 1) (some (.text "1"))
  [⟨some one, one⟩, ⟨some text, whole (.array [⟨some one, one⟩]) .any none⟩]

def repeating : Expr :=
  ⟨.array repeatedItems, some ⟨5, 30⟩, .any, ⟨true, false, false, false⟩, none, none⟩

theorem repeating_told :
    let c : Context := { script with registry := .ofList [.integer, .array] }
    repeating.form = .array repeatedItems ∧ (c.own .empty repeating).countP isRepeat = 1 ∧
      ∃ r ∈ c.own .empty repeating, r.finding.code = "W0203" := by
  intro c
  have form : repeating.form = .array repeatedItems := rfl
  obtain ⟨own, items, count, -⟩ := arrayLiteral_exact c .empty form
  have keys : repeatedItems.filterMap ArrayItem.storedKey? = [.int 1, .int 1] := by decide +kernel
  rw [keys] at count
  refine ⟨form, Nat.add_right_cancel count, ?_⟩
  let second : ArrayItem Expr := repeatedItems[1]
  have barred : ∃ key, second.key = some key ∧ c.registry.Bars key.mask :=
    ⟨_, rfl, by decide +kernel⟩
  obtain ⟨r, told, code⟩ := (items (repeatedItems.take 1) second).1.2 barred
  have listed : (second, 1) ∈ repeatedItems.zipIdx := List.mem_cons_of_mem _ List.mem_cons_self
  rw [own]
  exact ⟨r, List.mem_append_right _ (List.mem_flatMap.2 ⟨_, listed, told⟩), code⟩

end Context

end FlowLint
