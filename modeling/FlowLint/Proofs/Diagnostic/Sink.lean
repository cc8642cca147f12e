import FlowLint.Diagnostic.Report
import FlowLint.Proofs.Ordered

/-!
What a sink answers is told by what it holds for each routine, in whatever order its entries stand:
a list of them becomes the same once it is sorted by routine. After any history of publications a
sink holds the batches of each routine in their order, so that it does not matter in which order the
routines published, as long as each of them publishes once.
-/

namespace FlowLint.Sink

theorem lookup_entry (e : Entry) (rest : List Entry) (id : RoutineId) :
    (e :: rest).lookup id = if id = e.1 then some e.2 else rest.lookup id := by
  rw [List.lookup_cons]
  by_cases same : id = e.1
  · rw [if_pos same, beq_iff_eq.2 same]
  · rw [if_neg same, beq_eq_false_iff_ne.2 same]

theorem lookup_extend (id other : RoutineId) (ds : List Diagnostic) (entries : List Entry) :
    (extend id ds entries).lookup other =
      if other = id then some ((entries.lookup id).getD [] ++ ds) else entries.lookup other := by
  induction entries with
  | nil => exact lookup_entry _ _ _
  | cons e rest ih =>
    rw [extend, lookup_entry e rest id, lookup_entry e rest other]
    by_cases here : e.1 = id
    · subst here
      rw [if_pos rfl, if_pos rfl, lookup_entry]
      by_cases same : other = e.1 <;> simp [same]
    · rw [if_neg here, if_neg (Ne.symm here), lookup_entry, ih]
      by_cases same : other = e.1 <;> simp [same, here]

/-- A batch, empty or not, is added to the diagnostics of its routine and to no other. -/
theorem forRoutine_publish (s : Sink) (id other : RoutineId) (ds : List Diagnostic) :
    (s.publish id ds).forRoutine other = s.forRoutine other ++ if id = other then ds else [] := by
  by_cases empty : ds.isEmpty
  · rw [publish, if_pos empty, List.isEmpty_iff.1 empty, ite_self, List.append_nil]
  · rw [publish, if_neg empty, forRoutine, lookup_extend, forRoutine]
    by_cases same : other = id
    · rw [if_pos same, if_pos same.symm, same]
      rfl
    · rw [if_neg same, if_neg (Ne.symm same), List.append_nil]

theorem lookup_of_mem {entries : List Entry} (distinct : (entries.map (·.1)).Nodup) {e : Entry}
    (member : e ∈ entries) : entries.lookup e.1 = some e.2 := by
  induction entries with
  | nil => cases member
  | cons first rest ih =>
    rw [List.map_cons, List.nodup_cons] at distinct
    rw [lookup_entry]
    rcases List.mem_cons.1 member with rfl | later
    · exact if_pos rfl
    · have other : e.1 ≠ first.1 := fun same => distinct.1 (same ▸ List.mem_map_of_mem later)
      rw [if_neg other]
      exact ih distinct.2 later

theorem forRoutine_of_mem {s : Sink} {e : Entry} (member : e ∈ s.entries) :
    s.forRoutine e.1 = e.2 := by
  rw [forRoutine, lookup_of_mem s.distinct member]
  rfl

theorem sorted_perm (s : Sink) : s.sorted.Perm s.entries := List.mergeSort_perm _ _

theorem sorted_pairwise (s : Sink) : s.sorted.Pairwise fun a b => a.1 < b.1 :=
  mergeSort_pairwise Prod.fst s.distinct

/-- Any list of the entries that was sorted by routine, in a stable way or not, spells out all
diagnostics. -/
theorem flatMap_of_perm_entries {s : Sink} {listed : List (RoutineId × List Diagnostic)}
    (perm : listed.Perm s.entries) (sorted : listed.Pairwise fun a b => a.1 ≤ b.1) :
    listed.flatMap (·.2) = s.all := by
  rw [eq_of_perm_of_pairwise (·.1) (perm.trans s.sorted_perm.symm) s.sorted_pairwise sorted, all]

theorem flatMap_entries_perm (s : Sink) : (s.entries.flatMap (·.2)).Perm s.all :=
  s.sorted_perm.symm.flatMap_right _

def routines (s : Sink) : List RoutineId := s.sorted.map (·.1)

theorem routines_pairwise (s : Sink) : s.routines.Pairwise (· < ·) :=
  List.pairwise_map.2 s.sorted_pairwise

theorem forRoutine_of_not_mem {s : Sink} {id : RoutineId} (silent : id ∉ s.routines) :
    s.forRoutine id = [] := by
  have absent : s.entries.lookup id = none := by
    rw [List.lookup_eq_none_iff]
    intro e member
    rw [bne_iff_ne]
    rintro rfl
    exact silent (List.mem_map_of_mem (s.sorted_perm.mem_iff.2 member))
  rw [forRoutine, absent]
  rfl

theorem flatMap_routines (s : Sink) : s.routines.flatMap s.forRoutine = s.all := by
  rw [routines, List.flatMap_map, all]
  apply List.flatMap_congr
  intro e member
  exact forRoutine_of_mem (s.sorted_perm.mem_iff.1 member)

/-- All diagnostics are those of any ascending routines among which are all that have some. -/
theorem all_eq_flatMap {s : Sink} {ids : List RoutineId} (ascending : ids.Pairwise (· < ·))
    (silent : ∀ id, id ∉ ids → s.forRoutine id = []) : s.all = ids.flatMap s.forRoutine := by
  rw [← flatMap_routines]
  exact flatMap_eq_of_pairwise_lt s.routines_pairwise ascending (fun _ => forRoutine_of_not_mem)
    silent

theorem all_congr {s t : Sink} (same : ∀ id, t.forRoutine id = s.forRoutine id) :
    t.all = s.all := by
  have silent (id : RoutineId) (unlisted : id ∉ s.routines) : t.forRoutine id = [] :=
    (same id).trans (forRoutine_of_not_mem unlisted)
  rw [all_eq_flatMap s.routines_pairwise silent, ← s.flatMap_routines]
  exact List.flatMap_congr fun id _ => same id

theorem all_publish_empty (id : RoutineId) (ds : List Diagnostic) :
    (empty.publish id ds).all = ds := by
  have alone (other : RoutineId) :
      (empty.publish id ds).forRoutine other = if id = other then ds else [] :=
    forRoutine_publish empty id other ds
  rw [all_eq_flatMap (List.pairwise_singleton _ id), List.flatMap_singleton, alone, if_pos rfl]
  intro other unlisted
  rw [alone, if_neg fun same => unlisted (List.mem_singleton.2 same.symm)]

/-- When each routine holds diagnostics of its own only, those of a routine stand together in the
list of all diagnostics. -/
theorem filter_all {s : Sink} (own : ∀ id, ∀ d ∈ s.forRoutine id, d.routine = id)
    (id : RoutineId) : s.all.filter (·.routine == id) = s.forRoutine id := by
  have same : (s.forRoutine id).filter (·.routine == id) = s.forRoutine id := by
    rw [List.filter_eq_self]
    intro d member
    exact beq_iff_eq.2 (own id d member)
  have others (other : RoutineId) (different : other ≠ id) :
      (s.forRoutine other).filter (·.routine == id) = [] := by
    rw [List.filter_eq_nil_iff]
    intro d member equal
    exact different ((own other d member).symm.trans (eq_of_beq equal))
  rw [← s.flatMap_routines, List.filter_flatMap]
  by_cases present : id ∈ s.routines
  · rw [flatMap_eq_of_mem (s.routines_pairwise.imp Nat.ne_of_lt) present fun _ _ => others _, same]
  · rw [forRoutine_of_not_mem present, List.flatMap_eq_nil_iff]
    intro other listed
    exact others other fun equal => present (equal ▸ listed)

theorem foldl_countP (p : Diagnostic → Bool) (entries : List Entry) (n : Nat) :
    entries.foldl (fun n e => n + e.2.countP p) n = n + (entries.flatMap (·.2)).countP p := by
  induction entries generalizing n with
  | nil => rfl
  | cons e rest ih => rw [List.foldl_cons, ih, List.flatMap_cons, List.countP_append, Nat.add_assoc]

theorem count_eq_countP_all (s : Sink) (severity : Severity) :
    s.count severity = s.all.countP (·.severity == severity) := by
  rw [count, foldl_countP, Nat.zero_add]
  exact s.flatMap_entries_perm.countP_eq _

theorem size_eq_length_all (s : Sink) : s.size = s.all.length := by
  have counted := foldl_countP (fun _ => true) s.entries 0
  simp only [List.countP_true, Nat.zero_add] at counted
  rw [size, counted]
  exact s.flatMap_entries_perm.length_eq

/-- A report depends on nothing but the diagnostics in their order. -/
theorem report_congr {s t : Sink} (same : t.all = s.all) (o : Options) :
    t.report o = s.report o := by
  simp only [report, count_eq_countP_all, same]

def publishAll (s : Sink) (history : List (RoutineId × List Diagnostic)) : Sink :=
  history.foldl (fun s batch => s.publish batch.1 batch.2) s

theorem publishAll_concat (s : Sink) (history : List (RoutineId × List Diagnostic))
    (id : RoutineId) (ds : List Diagnostic) :
    s.publishAll (history ++ [(id, ds)]) = (s.publishAll history).publish id ds :=
  List.foldl_concat ..

theorem forRoutine_publishAll (s : Sink) (history : List (RoutineId × List Diagnostic))
    (id : RoutineId) :
    (s.publishAll history).forRoutine id =
      s.forRoutine id ++ (history.filter (·.1 == id)).flatMap (·.2) := by
  induction history generalizing s with
  | nil => exact (List.append_nil _).symm
  | cons batch history ih =>
    rw [publishAll, List.foldl_cons, ← publishAll, ih, forRoutine_publish, List.append_assoc]
    by_cases same : batch.1 = id <;> simp [same]

section Once

variable {history : List (RoutineId × List Diagnostic)}

theorem forRoutine_publishAll_of_mem (distinct : (history.map (·.1)).Nodup)
    {batch : RoutineId × List Diagnostic} (member : batch ∈ history) :
    (empty.publishAll history).forRoutine batch.1 = batch.2 := by
  have among : batch ∈ history.filter (·.1 == batch.1) :=
    List.mem_filter.2 ⟨member, beq_self_eq_true _⟩
  rw [forRoutine_publishAll]
  refine flatMap_eq_of_mem (distinct.of_map.filter _) among fun other found different => ?_
  obtain ⟨published, same⟩ := List.mem_filter.1 found
  exact absurd (List.inj_on_of_nodup_map distinct published member (eq_of_beq same)) different

theorem forRoutine_publishAll_of_not_mem {id : RoutineId} (silent : id ∉ history.map (·.1)) :
    (empty.publishAll history).forRoutine id = [] := by
  have none : history.filter (·.1 == id) = [] := by
    rw [List.filter_eq_nil_iff]
    intro batch member same
    exact silent (eq_of_beq same ▸ List.mem_map_of_mem member)
  rw [forRoutine_publishAll, none]
  rfl

/-- When each routine publishes once, the order does not matter. -/
theorem forRoutine_publishAll_of_perm (distinct : (history.map (·.1)).Nodup)
    {other : List (RoutineId × List Diagnostic)} (perm : other.Perm history) (id : RoutineId) :
    (empty.publishAll other).forRoutine id = (empty.publishAll history).forRoutine id := by
  by_cases spoke : id ∈ history.map (·.1)
  · obtain ⟨batch, member, rfl⟩ := List.mem_map.1 spoke
    rw [forRoutine_publishAll_of_mem distinct member, forRoutine_publishAll_of_mem
      ((perm.map _).nodup_iff.2 distinct) (perm.mem_iff.2 member)]
  · rw [forRoutine_publishAll_of_not_mem spoke, forRoutine_publishAll_of_not_mem
      fun listed => spoke ((perm.map _).mem_iff.1 listed)]

end Once

end FlowLint.Sink
