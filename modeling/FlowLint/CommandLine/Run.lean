import FlowLint.CommandLine.Invocation
import FlowLint.CommandLine.LogFile
import FlowLint.CommandLine.System
import FlowLint.Document.Diagnostic
import FlowLint.File.Store

/-!
A run of the program over the files of its command line. The first file that cannot be loaded, or
for which no workers can be started, ends the run; what was printed before stays.
-/

namespace FlowLint

structure Outcome where
  exit : Nat
  output : String
  message : Option String
  deriving DecidableEq, Repr

namespace Outcome

def misused : Outcome := ⟨2, "", none⟩

def success : Outcome := ⟨0, "", none⟩

/-- The log could not be opened. -/
def unlogged : Outcome := ⟨101, "", none⟩

def failure (e : Failure) : Outcome := ⟨2, "", some ("phpc-diag: " ++ e.message)⟩

def andThen (a b : Outcome) : Outcome := ⟨max a.exit b.exit, a.output ++ b.output, b.message⟩

end Outcome

namespace Report

def text (r : Report) (file : String) : String :=
  String.join (r.shown.map fun d => file ++ ": " ++ d.text ++ "\n") ++
    s!"{file}: {r.errors} error(s), {r.warnings} warning(s), {r.infos} info\n"

def json (r : Report) : String := (Json.list Diagnostic.encode r.shown).render ++ "\n"

def render (r : Report) (format : Format) (file : String) : String :=
  match format with
  | .text => r.text file
  | .json => r.json

end Report

namespace Invocation

def report (i : Invocation) (sys : System) (read : Reader) (file : String) :
    Except Failure Report := do
  let program ← Program.load sys read file
  let sink ← program.analyzeOn sys i.options
  return sink.report i.options

def runOver (i : Invocation) (sys : System) (read : Reader) : List String → Outcome
  | [] => .success
  | file :: rest =>
    match i.report sys read file with
    | .error e => .failure e
    | .ok r =>
      .andThen ⟨if r.blocked then 1 else 0, r.render i.format file, none⟩
        (i.runOver sys read rest)

def run (i : Invocation) (sys : System) (read : Reader) : Outcome := i.runOver sys read i.files

/-- The files at hand once the log is open; `none` if it cannot be opened. -/
def openLog? (i : Invocation) (s : Store) : Option Store :=
  match i.logFile with
  | some path => s.append? (LogFile.ofPath path).path ""
  | none => some s

/-- The run over files in memory. The log is opened before anything is read, and nothing is written
to it before the run ends. -/
def runIn (i : Invocation) (sys : System) (s : Store) : Outcome :=
  match i.openLog? s with
  | some files => i.run sys files.read
  | none => .unlogged

end Invocation

/-- The run with the given arguments. One that only asks for help or for the version reads no file
and succeeds; the text that answers it is no part of the outcome. -/
def runArguments (sys : System) (s : Store) (args : List String) : Outcome :=
  match Command.ofArguments? args with
  | some (.check i) => i.runIn sys s
  | some _ => .success
  | none => .misused

end FlowLint
