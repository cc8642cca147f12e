import FlowLint.CommandLine.Run
import FlowLint.Proofs.Document.Program
import FlowLint.Proofs.Pool
import FlowLint.Proofs.Remark

/-!
Runs over several files. A run over some files and then others is the run over the former, continued
by the run over the latter unless it failed. So the exit code tells whether some file could not be
loaded, or else whether some report is blocked, as long as the workers for the analysis start.
-/

namespace FlowLint

/-- The same options for other files. -/
def Invocation.withFiles (i : Invocation) (files : List String) : Invocation :=
  { i with files := files }

namespace CommandLine

def IsFileName (arg : String) : Prop := arg ≠ "" ∧ isDashed arg = false

theorem isDashed_of_toList {s : String} {c : Char} {rest : List Char}
    (spelled : s.toList = '-' :: c :: rest) : isDashed s = true := by
  have starts : s.startsWith "-" = true := by
    rw [String.startsWith_string_iff, spelled]
    exact List.prefix_append ['-'] (c :: rest)
  have longer : s ≠ "-" := by
    intro same
    rw [same] at spelled
    cases spelled
  simpa [isDashed, starts] using longer

theorem isDashed_of_startsWith {s dashed : String} {c : Char} {rest : List Char}
    (spelled : dashed.toList = '-' :: c :: rest) (starts : s.startsWith dashed = true) :
    isDashed s = true := by
  rw [String.startsWith_string_iff, spelled] at starts
  obtain ⟨more, whole⟩ := starts
  exact isDashed_of_toList whole.symm

theorem isDashed_eq_false {s : String} {c : Char} {rest : List Char}
    (spelled : s.toList = c :: rest) (plain : c ≠ '-') : isDashed s = false := by
  have starts : s.startsWith "-" = false := by
    rw [Bool.eq_false_iff]
    intro dashed
    rw [String.startsWith_string_iff, spelled] at dashed
    exact plain (List.cons_prefix_cons.1 dashed).1.symm
  simp [isDashed, starts]

theorem Key.isDashed_name (key : Key) : isDashed key.name = true := by
  cases key <;> exact isDashed_of_toList rfl

namespace Draft

variable {d : Draft} {names : List String}

def addFiles (d : Draft) (names : List String) : Draft := { d with files := d.files ++ names }

theorem addFiles_nil (d : Draft) : d.addFiles [] = d := by
  rw [addFiles, List.append_nil]

theorem addFiles_cons (d : Draft) (name : String) (names : List String) :
    d.addFiles (name :: names) = (d.addFiles [name]).addFiles names := by
  simp only [addFiles, List.append_assoc, List.singleton_append]

theorem addFile?_of_isFileName (d : Draft) {name : String} (named : IsFileName name) :
    d.addFile? name = some (d.addFiles [name]) := by
  have whole : path? name = some name := if_neg (by simpa using named.1)
  rw [addFile?, whole]
  rfl

theorem foldlM_addFile? (d : Draft) (named : ∀ name ∈ names, IsFileName name) :
    names.foldlM addFile? d = some (d.addFiles names) := by
  induction names generalizing d with
  | nil => exact congrArg some d.addFiles_nil.symm
  | cons name rest ih =>
    have later := ih (d.addFiles [name]) fun other member =>
      named other (List.mem_cons_of_mem name member)
    rw [List.foldlM_cons, addFile?_of_isFileName d (named name List.mem_cons_self),
      addFiles_cons d name rest]
    exact later

theorem command?_of_isFileName (d : Draft) {name : String} (named : IsFileName name)
    (rest : List String) : d.command? (name :: rest) = (d.addFiles [name]).command? rest := by
  have never {property : Prop} (dashed : property → isDashed name = true) : ¬ property :=
    fun holds => Bool.false_ne_true (named.2.symm.trans (dashed holds))
  have other {dashed : String} {c : Char} {tail : List Char}
      (spelled : dashed.toList = '-' :: c :: tail) : ¬ name = dashed :=
    never fun same => isDashed_of_toList (same ▸ spelled)
  have noKey : Key.all.find? (·.name == name) = none := by
    rw [List.find?_eq_none]
    intro key _
    exact never fun same => beq_iff_eq.1 same ▸ key.isDashed_name
  have noHelp : ¬ (name = "--help" ∨ name.startsWith "-h" = true) :=
    never fun asks => asks.elim (fun same => same ▸ isDashed_of_toList rfl)
      fun starts => isDashed_of_startsWith rfl starts
  have noVersion : ¬ (name = "--version" ∨ name.startsWith "-V" = true) :=
    never fun asks => asks.elim (fun same => same ▸ isDashed_of_toList rfl)
      fun starts => isDashed_of_startsWith rfl starts
  rw [command?, if_neg (other rfl), if_neg noHelp, if_neg noVersion, if_neg (other rfl)]
  · rw [if_neg (never id), addFile?_of_isFileName d named]
    rfl
  · exact noKey

theorem command?_files (d : Draft) (named : ∀ name ∈ names, IsFileName name) :
    d.command? names = (d.addFiles names).finish? := by
  induction names generalizing d with
  | nil => rw [addFiles_nil, command?]
  | cons name rest ih =>
    rw [command?_of_isFileName d (named name List.mem_cons_self), addFiles_cons d name rest]
    exact ih _ fun other member => named other (List.mem_cons_of_mem name member)

theorem finish?_addFiles {i : Invocation} (understood : d.finish? = some (.check i)) :
    (d.addFiles names).finish? = some (.check (i.withFiles (i.files ++ names))) := by
  unfold finish? at understood ⊢
  split at understood
  · cases understood
  · rename_i present
    obtain rfl := Command.check.inj (Option.some.inj understood)
    have more : (d.files ++ names).isEmpty = false := by
      cases files : d.files <;> simp_all
    simp [addFiles, more, Invocation.withFiles]

theorem command?_of_key (d : Draft) (key : Key) {value : String} (plain : isDashed value = false)
    (rest : List String) :
    d.command? (key.name :: value :: rest) =
      (d.set? key value).bind fun next => next.command? rest := by
  have noHelp : ¬ (key.name = "--help" ∨ key.name.startsWith "-h" = true) := by
    rw [String.startsWith_string_iff]
    cases key <;> decide
  have noVersion : ¬ (key.name = "--version" ∨ key.name.startsWith "-V" = true) := by
    rw [String.startsWith_string_iff]
    cases key <;> decide
  have noDash : key.name ≠ "--" := by cases key <;> decide
  have noDenial : key.name ≠ "--deny-warnings" := by cases key <;> decide
  have found : Key.all.find? (·.name == key.name) = some key := by cases key <;> decide
  rw [command?, if_neg noDash, if_neg noHelp, if_neg noVersion, if_neg noDenial,
    if_neg (by simp [plain])]
  exact found

/-- File names behind a command line that asks for a check change nothing but the files. -/
theorem command?_append {args : List String} {i : Invocation}
    (named : ∀ name ∈ names, IsFileName name) (understood : d.command? args = some (.check i)) :
    d.command? (args ++ names) = some (.check (i.withFiles (i.files ++ names))) := by
  -- the other cases ask for help or for the version, or are not understood: nothing is checked
  fun_induction command? d args with
  | case1 d =>
    rw [List.nil_append, command?_files d named]
    exact finish?_addFiles understood
  | case2 d rest =>
    obtain ⟨next, added, understood⟩ := Option.bind_eq_some_iff.1 understood
    have more : (rest ++ names).foldlM addFile? d = some (next.addFiles names) := by
      rw [List.foldlM_append, added]
      exact foldlM_addFile? next named
    rw [List.cons_append, command?, if_pos rfl, more]
    · exact finish?_addFiles understood
    · decide
  | case5 d rest dashes help version ih =>
    obtain ⟨next, denied, understood⟩ := Option.bind_eq_some_iff.1 understood
    rw [List.cons_append, command?, if_neg dashes, if_neg help, if_neg version, if_pos rfl, denied]
    · exact ih next understood
    · decide
  | case7 d arg dashes help version deny key value rest found plain ih =>
    obtain ⟨next, changed, understood⟩ := Option.bind_eq_some_iff.1 understood
    rw [List.cons_append, List.cons_append, command?, if_neg dashes, if_neg help, if_neg version,
      if_neg deny, if_neg plain, changed]
    · exact ih next understood
    · exact found
  | case9 d arg dashes help version deny rest unknown dashed key value attached ih =>
    obtain ⟨next, changed, understood⟩ := Option.bind_eq_some_iff.1 understood
    rw [List.cons_append, command?, if_neg dashes, if_neg help, if_neg version, if_neg deny,
      if_pos dashed, attached]
    · dsimp only
      rw [changed]
      exact ih next understood
    · exact unknown
  | case11 d arg dashes help version deny rest unknown plain ih =>
    obtain ⟨next, added, understood⟩ := Option.bind_eq_some_iff.1 understood
    rw [List.cons_append, command?, if_neg dashes, if_neg help, if_neg version, if_neg deny,
      if_neg plain, added]
    · exact ih next understood
    · exact unknown
  | _ => cases understood

end Draft

end CommandLine

namespace Program

/-- The text is a document that is read as the program, which may have defects. -/
def SpelledBy (p : Program) (text : String) : Prop :=
  ∃ j, Json.parse? text = some j ∧ decode.run j = some p

theorem ofText_of_spelledBy {text : String} {p : Program} (spelled : p.SpelledBy text) :
    ofText text = p.checked := by
  obtain ⟨j, parsed, decoded⟩ := spelled
  simp only [ofText, parsed, ofJson, decoded]

theorem ofText_of_not_spelledBy {text : String} (unspelled : ∀ p : Program, ¬ p.SpelledBy text) :
    ofText text = .error .malformed := by
  unfold ofText
  cases parsed : Json.parse? text with
  | none => rfl
  | some j =>
    cases decoded : decode.run j with
    | none => simp only [ofJson, decoded]
    | some p => exact absurd ⟨j, parsed, decoded⟩ (unspelled p)

end Program

namespace Reader

variable (sys : System) (read : Reader) (file : String)

def Loads (p : Program) : Prop := ∃ text, read file = .ok text ∧ p.SpelledBy text ∧ p.defect? = none

/-- The file cannot be read, spells no program, or spells one that has a defect. -/
inductive Fails : Failure → Prop where
  | unreadable {reason : ReadError} : read file = .error reason → Fails (.unreadable file reason)
  | malformed {text : String} : read file = .ok text → (∀ p : Program, ¬ p.SpelledBy text) →
      Fails (.malformed (sys.explain text))
  | defective {text : String} {p : Program} {defect : Defect} : read file = .ok text →
      p.SpelledBy text → p.defect? = some defect → Fails (.defective defect)

/-- All files can be loaded. -/
def AllLoad (files : List String) : Prop := ∀ file ∈ files, ∃ p, read.Loads file p

variable {sys : System} {read : Reader} {file : String} {p : Program} {e : Failure}

theorem load_of_loads (loads : read.Loads file p) : Program.load sys read file = .ok p := by
  obtain ⟨text, found, spelled, harmless⟩ := loads
  rw [Program.load, found]
  dsimp only
  rw [Program.ofText_of_spelledBy spelled, Program.checked, harmless]

theorem load_of_fails (fails : read.Fails sys file e) : Program.load sys read file = .error e := by
  cases fails with
  | unreadable found => rw [Program.load, found]
  | malformed found unspelled =>
    rw [Program.load, found]
    dsimp only
    rw [Program.ofText_of_not_spelledBy unspelled]
  | defective found spelled harmed =>
    rw [Program.load, found]
    dsimp only
    rw [Program.ofText_of_spelledBy spelled, Program.checked, harmed]

variable (sys read file) in
theorem loads_or_fails : (∃ p, read.Loads file p) ∨ ∃ e, read.Fails sys file e := by
  cases found : read file with
  | error reason => exact .inr ⟨_, .unreadable found⟩
  | ok text =>
    by_cases spells : ∃ p : Program, p.SpelledBy text
    · obtain ⟨p, spelled⟩ := spells
      cases harmed : p.defect? with
      | none => exact .inl ⟨p, text, found, spelled, harmed⟩
      | some defect => exact .inr ⟨_, .defective found spelled harmed⟩
    · exact .inr ⟨_, .malformed found (not_exists.1 spells)⟩

theorem load_eq_ok_iff : Program.load sys read file = .ok p ↔ read.Loads file p := by
  refine ⟨fun loaded => ?_, load_of_loads⟩
  rcases loads_or_fails sys read file with ⟨q, loads⟩ | ⟨e, fails⟩
  · rw [load_of_loads loads] at loaded
    exact Except.ok.inj loaded ▸ loads
  · rw [load_of_fails fails] at loaded
    cases loaded

theorem load_eq_error_iff : Program.load sys read file = .error e ↔ read.Fails sys file e := by
  refine ⟨fun refused => ?_, load_of_fails⟩
  rcases loads_or_fails sys read file with ⟨p, loads⟩ | ⟨other, fails⟩
  · rw [load_of_loads loads] at refused
    cases refused
  · rw [load_of_fails fails] at refused
    exact Except.error.inj refused ▸ fails

end Reader

namespace Invocation

/-- As many workers as the command line asks for can be started. -/
def StartsPool (i : Invocation) (sys : System) : Prop := sys.startPool i.options.threads = .ok ()

def SomeBlocked (i : Invocation) (read : Reader) (files : List String) : Prop :=
  ∃ file ∈ files, ∃ p, read.Loads file p ∧ (p.analyze.report i.options).blocked = true

variable {i : Invocation} {sys : System} {read : Reader} {file : String} {p : Program}
  {e : Failure} {r : Report}

theorem report_of_startsPool (starts : i.StartsPool sys) (read : Reader) (file : String) :
    i.report sys read file =
      (Program.load sys read file).map fun p => p.analyze.report i.options := by
  rw [report]
  cases Program.load sys read file with
  | error e => rfl
  | ok p =>
    change Except.bind (p.analyzeOn sys i.options) _ = _
    rw [Program.analyzeOn, starts]
    rfl

theorem report_eq_ok_iff (starts : i.StartsPool sys) :
    i.report sys read file = .ok r ↔
      ∃ p, read.Loads file p ∧ p.analyze.report i.options = r := by
  simp only [report_of_startsPool starts, ← @Reader.load_eq_ok_iff sys]
  cases Program.load sys read file <;> simp [Except.map]

theorem report_eq_error_iff (starts : i.StartsPool sys) :
    i.report sys read file = .error e ↔ read.Fails sys file e := by
  rw [report_of_startsPool starts, ← Reader.load_eq_error_iff]
  cases Program.load sys read file <;> simp [Except.map]

theorem report_of_noPool {reason : String}
    (refused : sys.startPool i.options.threads = .error reason) (loads : read.Loads file p) :
    i.report sys read file = .error (.noPool reason) := by
  rw [report, Reader.load_of_loads loads]
  change Except.bind (p.analyzeOn sys i.options) _ = _
  rw [Program.analyzeOn, refused]
  rfl

theorem report_of_fails (fails : read.Fails sys file e) : i.report sys read file = .error e := by
  rw [report, Reader.load_of_fails fails]
  rfl

end Invocation

namespace Outcome

theorem success_andThen (o : Outcome) : success.andThen o = o := by
  simp [andThen, success]

theorem andThen_assoc (a b c : Outcome) : (a.andThen b).andThen c = a.andThen (b.andThen c) := by
  simp [andThen, Nat.max_assoc, String.append_assoc]

/-- The outcome of a run that goes on behind another one. A run that failed is not continued. -/
def Continues (whole first second : Outcome) : Prop :=
  (first.exit = 2 → whole = first) ∧
    (first.exit ≠ 2 →
      whole.output = first.output ++ second.output ∧ whole.message = second.message ∧
        whole.exit = max first.exit second.exit)

end Outcome

namespace Invocation

variable {i : Invocation} {sys : System} {read : Reader} {files : List String}

def AllReport (i : Invocation) (sys : System) (read : Reader) (files : List String) : Prop :=
  ∀ file ∈ files, ∃ r, i.report sys read file = .ok r

def BlockedReport (i : Invocation) (sys : System) (read : Reader) (files : List String) : Prop :=
  ∃ file ∈ files, ∃ r, i.report sys read file = .ok r ∧ r.blocked = true

/-- Either there is a report on each file or there is a first one without. -/
theorem allReport_or_first (i : Invocation) (sys : System) (read : Reader) (files : List String) :
    i.AllReport sys read files ∨
      ∃ before file after e, files = before ++ file :: after ∧ i.AllReport sys read before ∧
        i.report sys read file = .error e := by
  induction files with
  | nil => exact .inl (List.forall_mem_nil _)
  | cons file rest ih =>
    cases found : i.report sys read file with
    | error e => exact .inr ⟨[], file, rest, e, rfl, List.forall_mem_nil _, found⟩
    | ok r =>
      rcases ih with all | ⟨before, first, after, e, rfl, all, failed⟩
      · exact .inl (List.forall_mem_cons.2 ⟨⟨r, found⟩, all⟩)
      · exact .inr
          ⟨file :: before, first, after, e, rfl, List.forall_mem_cons.2 ⟨⟨r, found⟩, all⟩, failed⟩

theorem runOver_append {a : List String} (reports : i.AllReport sys read a) (b : List String) :
    i.runOver sys read (a ++ b) = (i.runOver sys read a).andThen (i.runOver sys read b) := by
  induction a with
  | nil => exact (Outcome.success_andThen _).symm
  | cons file rest ih =>
    obtain ⟨⟨r, found⟩, others⟩ := List.forall_mem_cons.1 reports
    simp only [List.cons_append, runOver, found, ih others, Outcome.andThen_assoc]

open Classical in
theorem runOver_of_allReport (reports : i.AllReport sys read files) :
    (i.runOver sys read files).message = none ∧
      (i.runOver sys read files).exit = if i.BlockedReport sys read files then 1 else 0 := by
  induction files with
  | nil => simp [runOver, Outcome.success, BlockedReport]
  | cons file rest ih =>
    obtain ⟨⟨r, found⟩, others⟩ := List.forall_mem_cons.1 reports
    obtain ⟨silent, exit⟩ := ih others
    have either : i.BlockedReport sys read (file :: rest) ↔
        r.blocked = true ∨ i.BlockedReport sys read rest := by
      simp [BlockedReport, found]
    simp only [runOver, found, Outcome.andThen, silent, exit, either, true_and]
    by_cases later : i.BlockedReport sys read rest <;> cases r.blocked <;> simp [later]

theorem exit_lt_two_of_allReport (reports : i.AllReport sys read files) :
    (i.runOver sys read files).exit < 2 := by
  rw [(runOver_of_allReport reports).2]
  split <;> decide

/-- The first file without a report ends the run. -/
theorem runOver_of_error {before after : List String} {file : String} {e : Failure}
    (reports : i.AllReport sys read before) (failed : i.report sys read file = .error e) :
    i.runOver sys read (before ++ file :: after) =
      ⟨2, (i.runOver sys read before).output, some ("phpc-diag: " ++ e.message)⟩ := by
  have early : (i.runOver sys read before).exit ≤ 2 :=
    Nat.le_of_lt (exit_lt_two_of_allReport reports)
  rw [runOver_append reports, runOver, failed]
  simp only [Outcome.andThen, Outcome.failure, String.append_empty, Nat.max_eq_right early]

theorem exit_eq_two_iff :
    (i.runOver sys read files).exit = 2 ↔
      ∃ file ∈ files, ∃ e, i.report sys read file = .error e := by
  rcases i.allReport_or_first sys read files with all | ⟨before, file, after, e, rfl, all, failed⟩
  · refine iff_of_false (Nat.ne_of_lt (exit_lt_two_of_allReport all)) ?_
    rintro ⟨file, listed, e, failed⟩
    obtain ⟨r, found⟩ := all file listed
    rw [found] at failed
    cases failed
  · rw [runOver_of_error all failed]
    exact iff_of_true rfl ⟨file, List.mem_append_right _ List.mem_cons_self, e, failed⟩

theorem exit_of_not_allReport (some_fails : ¬ i.AllReport sys read files) :
    (i.runOver sys read files).exit = 2 := by
  obtain ⟨before, file, after, e, rfl, all, failed⟩ :=
    (i.allReport_or_first sys read files).resolve_left some_fails
  rw [runOver_of_error all failed]

theorem exit_eq_one_iff :
    (i.runOver sys read files).exit = 1 ↔
      i.AllReport sys read files ∧ i.BlockedReport sys read files := by
  by_cases all : i.AllReport sys read files
  · rw [(runOver_of_allReport all).2]
    by_cases blocked : i.BlockedReport sys read files <;> simp [all, blocked]
  · simp [all, exit_of_not_allReport all]

theorem exit_eq_zero_iff :
    (i.runOver sys read files).exit = 0 ↔
      i.AllReport sys read files ∧ ¬ i.BlockedReport sys read files := by
  by_cases all : i.AllReport sys read files
  · rw [(runOver_of_allReport all).2]
    by_cases blocked : i.BlockedReport sys read files <;> simp [all, blocked]
  · simp [all, exit_of_not_allReport all]

theorem runOver_continues (a b : List String) :
    (i.runOver sys read (a ++ b)).Continues (i.runOver sys read a) (i.runOver sys read b) := by
  rcases i.allReport_or_first sys read a with all | ⟨before, file, after, e, rfl, all, failed⟩
  · rw [runOver_append all]
    refine ⟨fun failed => ?_, fun _ => ⟨rfl, rfl, rfl⟩⟩
    exact absurd failed (Nat.ne_of_lt (exit_lt_two_of_allReport all))
  · rw [List.append_assoc, List.cons_append, runOver_of_error all failed,
      runOver_of_error all failed]
    exact ⟨fun _ => rfl, fun other => absurd rfl other⟩

theorem run_withFiles (i : Invocation) (sys : System) (read : Reader) (files : List String) :
    (i.withFiles files).run sys read = i.runOver sys read files := by
  have same (rest : List String) :
      (i.withFiles files).runOver sys read rest = i.runOver sys read rest := by
    induction rest with
    | nil => rfl
    | cons file rest ih =>
      have report : (i.withFiles files).report sys read file = i.report sys read file := rfl
      rw [runOver, runOver, report, ih]
      rfl
  exact same files

theorem runIn_withFiles (i : Invocation) (sys : System) (s : Store) :
    (∃ read : Reader, ∀ files, (i.withFiles files).runIn sys s = (i.withFiles files).run sys read) ∨
      ∀ files, (i.withFiles files).runIn sys s = .unlogged := by
  cases opened : i.openLog? s with
  | some t =>
    refine .inl ⟨t.read, fun files => ?_⟩
    have same : (i.withFiles files).openLog? s = some t := opened
    rw [runIn, same]
  | none =>
    refine .inr fun files => ?_
    have same : (i.withFiles files).openLog? s = none := opened
    rw [runIn, same]

theorem runIn_continues (i : Invocation) (sys : System) (s : Store) (a b : List String) :
    ((i.withFiles (a ++ b)).runIn sys s).Continues ((i.withFiles a).runIn sys s)
      ((i.withFiles b).runIn sys s) := by
  rcases i.runIn_withFiles sys s with ⟨read, opened⟩ | closed
  · simp only [opened, run_withFiles]
    exact runOver_continues a b
  · simp only [closed]
    exact ⟨fun _ => rfl, fun _ => ⟨rfl, rfl, rfl⟩⟩

section Pool

variable (starts : i.StartsPool sys)
include starts

theorem allReport_iff : i.AllReport sys read files ↔ read.AllLoad files := by
  simp only [AllReport, Reader.AllLoad, report_eq_ok_iff starts]
  refine forall₂_congr fun file _ => ?_
  constructor
  · rintro ⟨r, p, loads, -⟩
    exact ⟨p, loads⟩
  · rintro ⟨p, loads⟩
    exact ⟨_, p, loads, rfl⟩

theorem blockedReport_iff : i.BlockedReport sys read files ↔ i.SomeBlocked read files := by
  simp only [BlockedReport, SomeBlocked, report_eq_ok_iff starts]
  refine exists_congr fun file => and_congr_right fun _ => ?_
  constructor
  · rintro ⟨_, ⟨p, loads, rfl⟩, blocked⟩
    exact ⟨p, loads, blocked⟩
  · rintro ⟨p, loads, blocked⟩
    exact ⟨_, ⟨p, loads, rfl⟩, blocked⟩

end Pool

/-- Files that are named behind others are checked after them, with the same options. A run over
both is that over the former, continued by that over the latter. If workers start, it fails exactly
if some file cannot be loaded, with the output of the files before the first such one; otherwise the
exit code tells whether some report is blocked. If no workers start, it fails with its first file,
if not for a reason of that file then for this one. -/
theorem run_append_exact (i : Invocation) (sys : System) :
    (∀ args names a, Command.ofArguments? args = some (.check (i.withFiles a)) →
      (∀ name ∈ names, CommandLine.IsFileName name) →
        Command.ofArguments? (args ++ names) = some (.check (i.withFiles (a ++ names)))) ∧
    (∀ s first second whole a b, Command.ofArguments? first = some (.check (i.withFiles a)) →
      Command.ofArguments? second = some (.check (i.withFiles b)) →
      Command.ofArguments? whole = some (.check (i.withFiles (a ++ b))) →
        (runArguments sys s whole).Continues (runArguments sys s first)
          (runArguments sys s second)) ∧
    (∀ s, (∃ read : Reader, ∀ files,
        (i.withFiles files).runIn sys s = (i.withFiles files).run sys read) ∨
      ∀ files, (i.withFiles files).runIn sys s = .unlogged) ∧
    (∀ (read : Reader) a b,
      ((i.withFiles (a ++ b)).run sys read).Continues ((i.withFiles a).run sys read)
        ((i.withFiles b).run sys read)) ∧
    (i.StartsPool sys → ∀ (read : Reader) files,
      (((i.withFiles files).run sys read).exit = 2 ↔
        ∃ file ∈ files, ∃ e, read.Fails sys file e) ∧
      (((i.withFiles files).run sys read).exit = 1 ↔
        read.AllLoad files ∧ i.SomeBlocked read files) ∧
      (((i.withFiles files).run sys read).exit = 0 ↔
        read.AllLoad files ∧ ¬ i.SomeBlocked read files) ∧
      ∀ before file after e, files = before ++ file :: after → read.AllLoad before →
        read.Fails sys file e →
          (i.withFiles files).run sys read =
            ⟨2, ((i.withFiles before).run sys read).output,
              some ("phpc-diag: " ++ e.message)⟩) ∧
    ∀ reason, sys.startPool i.options.threads = .error reason → ∀ (read : Reader) file rest,
      (∀ e, read.Fails sys file e → (i.withFiles (file :: rest)).run sys read = .failure e) ∧
      ((∃ p, read.Loads file p) →
        (i.withFiles (file :: rest)).run sys read = .failure (.noPool reason)) := by
  refine ⟨?_, ?_, i.runIn_withFiles sys, ?_, ?_, ?_⟩
  · intro args names a understood named
    exact CommandLine.Draft.command?_append named understood
  · intro s first second whole a b onFirst onSecond onBoth
    simp only [runArguments, onFirst, onSecond, onBoth]
    exact i.runIn_continues sys s a b
  · intro read a b
    simp only [run_withFiles]
    exact runOver_continues a b
  · intro starts read files
    simp only [run_withFiles, ← allReport_iff starts, ← blockedReport_iff starts,
      ← report_eq_error_iff starts]
    refine ⟨exit_eq_two_iff, exit_eq_one_iff, exit_eq_zero_iff, ?_⟩
    rintro before file after e rfl all failed
    exact runOver_of_error all failed
  · intro reason refused read file rest
    simp only [run_withFiles, runOver]
    constructor
    · intro e fails
      rw [report_of_fails fails]
    · rintro ⟨p, loads⟩
      rw [report_of_noPool refused loads]

def danglingDocument : Json :=
  let graph := Json.record
    [("start", .nat 0), ("exit", .nat 0), ("blocks", .array [.record [("ordinal", .nat 0)]]),
     ("labels", .array [.record [("label", .text "end"), ("span", .array [.nat 5, .nat 8])]])]
  .record
    [("symbols", .record [("routines", .array [.record [("name", .text "main")]])]),
     ("routines", .array [.record [("symbol", .nat 0), ("cfg", graph)]])]

def danglingGraph : Graph :=
  { start := 0
    exit := 0
    blocks := [⟨0, .plain, [], none⟩]
    labels := [⟨"end", ⟨5, 8⟩, false, false, false⟩]
    unreachable := [] }

def dangling : Program :=
  { symbols := ⟨[], [⟨"main", .function, none, [], false, false, none, none, ⟨0, 0⟩⟩]⟩
    routines := [⟨0, some danglingGraph, .empty⟩] }

theorem dangling_valid : dangling.Valid where
  declared := by simp [dangling, SymbolTable.routine?]
  distinct := List.nodup_singleton _
  sound := by
    have sound : danglingGraph.Sound := ⟨by decide, by decide⟩
    simp [dangling, sound]

theorem dangling_blocked (o : Options) : (dangling.analyze.report o).blocked = true := by
  let r : Routine := ⟨0, some danglingGraph, .empty⟩
  have told : ⟨0, ⟨5, 8⟩, .undefinedLabel "end"⟩ ∈ r.diagnostics dangling.symbols := by
    rw [Routine.diagnostics_eq rfl rfl]
    refine List.mem_map.2 ⟨⟨some ⟨5, 8⟩, .undefinedLabel "end"⟩, ?_, rfl⟩
    refine List.mem_append_left _ (List.mem_append_right _ ?_)
    simp [danglingGraph, Context.labels, remarkIf]
  have reported := ((Program.yields_analyze dangling).mem_all_iff dangling_valid).2
    ⟨r, List.mem_cons_self, told⟩
  exact List.any_eq_true.2 ⟨_, reported, rfl⟩

def danglingAlone : Reader := fun name =>
  if name = "a.json" then .ok danglingDocument.render else .error .missing

theorem danglingAlone_loads : danglingAlone.Loads "a.json" dangling :=
  ⟨_, rfl, ⟨danglingDocument, Json.parse?_render _, rfl⟩,
    Program.defect?_eq_none_iff.2 dangling_valid⟩

def prompt : System := ⟨fun _ => .ok (), fun _ => "expected value at line 1 column 1"⟩

/-- Four workers are more than can be started. -/
def crowded : System :=
  { prompt with
    startPool := fun threads =>
      if threads = some 4 then .error "Resource temporarily unavailable" else .ok () }

theorem danglingAlone_fails :
    danglingAlone.Fails prompt "b.json" (.unreadable "b.json" .missing) :=
  .unreadable (by simp [danglingAlone])

/-- The third file is not looked at, and that the first one is blocked does not show. With workers
that do not start, nothing is said of the first file either. -/
theorem danglingAlone_run :
    Command.ofArguments? ["--format", "json", "a.json"] =
        some (.check ⟨["a.json"], {}, .json, none⟩) ∧
      (∀ name ∈ ["b.json", "a.json"], CommandLine.IsFileName name) ∧
      Command.ofArguments? ["--format", "json", "b.json", "a.json"] =
        some (.check ⟨["b.json", "a.json"], {}, .json, none⟩) ∧
      (runArguments prompt .empty ["--format", "json", "a.json", "b.json", "a.json"]).Continues
        (runArguments prompt .empty ["--format", "json", "a.json"])
        (runArguments prompt .empty ["--format", "json", "b.json", "a.json"]) ∧
      StartsPool ⟨["a.json"], {}, .json, none⟩ prompt ∧
      danglingAlone.AllLoad ["a.json"] ∧
      danglingAlone.Fails prompt "b.json" (.unreadable "b.json" .missing) ∧
      (run ⟨["a.json"], {}, .json, none⟩ prompt danglingAlone).exit = 1 ∧
      run ⟨["a.json", "b.json", "a.json"], {}, .json, none⟩ prompt danglingAlone =
        ⟨2, (run ⟨["a.json"], {}, .json, none⟩ prompt danglingAlone).output,
          some "phpc-diag: failed to read 'b.json': No such file or directory (os error 2)"⟩ ∧
      run ⟨["a.json"], { threads := some 4 }, .json, none⟩ crowded danglingAlone =
        ⟨2, "",
          some "phpc-diag: failed to start worker pool: Resource temporarily unavailable"⟩ := by
  obtain ⟨behind, joined, -, -, runs, -⟩ := run_append_exact ⟨["a.json"], {}, .json, none⟩ prompt
  obtain ⟨-, -, -, -, -, refuses⟩ :=
    run_append_exact ⟨["a.json"], { threads := some 4 }, .json, none⟩ crowded
  have starts : StartsPool ⟨["a.json"], {}, .json, none⟩ prompt := rfl
  have a : CommandLine.IsFileName "a.json" :=
    ⟨by decide, CommandLine.isDashed_eq_false rfl (by decide)⟩
  have b : CommandLine.IsFileName "b.json" :=
    ⟨by decide, CommandLine.isDashed_eq_false rfl (by decide)⟩
  have named : ∀ name ∈ ["b.json", "a.json"], CommandLine.IsFileName name :=
    List.forall_mem_cons.2 ⟨b, List.forall_mem_singleton.2 a⟩
  have onFiles (names : List String) (named : ∀ name ∈ names, CommandLine.IsFileName name) :
      Command.ofArguments? ("--format" :: "json" :: names) =
        (CommandLine.Draft.addFiles ⟨[], none, none, none, some .json, false⟩ names).finish? := by
    have plain : CommandLine.isDashed "json" = false :=
      CommandLine.isDashed_eq_false rfl (by decide)
    exact (CommandLine.Draft.command?_of_key .empty .format plain names).trans
      (CommandLine.Draft.command?_files _ named)
  have first : Command.ofArguments? ["--format", "json", "a.json"] =
      some (.check ⟨["a.json"], {}, .json, none⟩) := onFiles _ (List.forall_mem_singleton.2 a)
  have second : Command.ofArguments? ["--format", "json", "b.json", "a.json"] =
      some (.check ⟨["b.json", "a.json"], {}, .json, none⟩) := onFiles _ named
  have loads : danglingAlone.AllLoad ["a.json"] :=
    List.forall_mem_singleton.2 ⟨dangling, danglingAlone_loads⟩
  have blocked : SomeBlocked ⟨["a.json"], {}, .json, none⟩ danglingAlone ["a.json"] :=
    ⟨_, List.mem_cons_self, dangling, danglingAlone_loads, dangling_blocked _⟩
  obtain ⟨-, one, -⟩ := runs starts danglingAlone ["a.json"]
  obtain ⟨-, -, -, stops⟩ := runs starts danglingAlone ["a.json", "b.json", "a.json"]
  obtain ⟨-, refused⟩ := refuses _ rfl danglingAlone "a.json" []
  exact ⟨first, named, second, joined _ _ _ _ _ _ first second (behind _ _ _ first named), starts,
    loads, danglingAlone_fails, one.2 ⟨loads, blocked⟩,
    stops ["a.json"] "b.json" ["a.json"] _ rfl loads danglingAlone_fails,
    refused ⟨dangling, danglingAlone_loads⟩⟩

end Invocation

end FlowLint
