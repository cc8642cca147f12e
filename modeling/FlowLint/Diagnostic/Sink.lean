import FlowLint.Diagnostic.Basic

/-!
The sink in which the diagnostics of a program are collected: a table with an entry for each routine
that published something. Every routine publishes its findings in batches; a batch is put behind
those that its routine published before, and the routines are listed by ascending identifier,
whichever came first.
-/

namespace FlowLint

namespace Sink

abbrev Entry := RoutineId × List Diagnostic

def extend (routine : RoutineId) (ds : List Diagnostic) : List Entry → List Entry
  | [] => [(routine, ds)]
  | e :: rest =>
    if e.1 = routine then (routine, e.2 ++ ds) :: rest else e :: extend routine ds rest

theorem keys_extend (routine : RoutineId) (ds : List Diagnostic) (entries : List Entry) :
    (extend routine ds entries).map (·.1) =
      if routine ∈ entries.map (·.1) then entries.map (·.1)
      else entries.map (·.1) ++ [routine] := by
  induction entries with
  | nil => rfl
  | cons e rest ih =>
    rw [extend, List.map_cons]
    by_cases same : e.1 = routine
    · subst same
      rw [if_pos rfl, if_pos List.mem_cons_self, List.map_cons]
    · have other : ¬ routine = e.1 := fun equal => same equal.symm
      rw [if_neg same, List.map_cons, ih]
      simp only [List.mem_cons, other, false_or]
      split <;> rfl

theorem nodup_extend {entries : List Entry} (distinct : (entries.map (·.1)).Nodup)
    (routine : RoutineId) (ds : List Diagnostic) :
    ((extend routine ds entries).map (·.1)).Nodup := by
  rw [keys_extend]
  split
  · exact distinct
  · rename_i absent
    refine List.nodup_append.2 ⟨distinct, List.nodup_cons.2 ⟨List.not_mem_nil, .nil⟩, ?_⟩
    intro id listed new same equal
    rw [equal, List.mem_singleton.1 same] at listed
    exact absent listed

end Sink

/-- The entries stand in no particular order. -/
structure Sink where
  entries : List Sink.Entry
  distinct : (entries.map (·.1)).Nodup
  deriving DecidableEq, Repr

namespace Sink

def empty : Sink := ⟨[], .nil⟩

/-- One more batch; an empty batch leaves no trace. -/
def publish (s : Sink) (routine : RoutineId) (ds : List Diagnostic) : Sink :=
  if ds.isEmpty then s else ⟨extend routine ds s.entries, nodup_extend s.distinct routine ds⟩

def forRoutine (s : Sink) (routine : RoutineId) : List Diagnostic :=
  (s.entries.lookup routine).getD []

def sorted (s : Sink) : List Entry := s.entries.mergeSort fun a b => a.1 ≤ b.1

def all (s : Sink) : List Diagnostic := s.sorted.flatMap (·.2)

def size (s : Sink) : Nat := s.entries.foldl (fun n e => n + e.2.length) 0

def isEmpty (s : Sink) : Bool := s.size == 0

def count (s : Sink) (severity : Severity) : Nat :=
  s.entries.foldl (fun n e => n + e.2.countP (·.severity == severity)) 0

def hasErrors (s : Sink) : Bool := 0 < s.count .error

end Sink

end FlowLint
