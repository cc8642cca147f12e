import FlowLint.Diagnostic.Report
import FlowLint.Text.Decimal

/-!
The command line: which files to check, and how. Options may stand before, between and behind the
files, each at most once; a double dash ends them. Arguments are understood from left to right, so
that a request for help counts only if nothing before it is wrong.
-/

namespace FlowLint

inductive Format where
  | text
  | json
  deriving DecidableEq, Repr

def Format.name : Format → String
  | text => "text"
  | json => "json"

def Format.ofName? (s : String) : Option Format := [text, json].find? (·.name == s)

structure Invocation where
  files : List String
  options : Options
  format : Format
  logFile : Option String
  deriving DecidableEq, Repr

inductive Command where
  | help
  | version
  | check (invocation : Invocation)
  deriving DecidableEq, Repr

namespace CommandLine

inductive Key where
  | minSeverity
  | threads
  | logFile
  | format
  deriving DecidableEq, Repr

def Key.all : List Key := [minSeverity, threads, logFile, format]

def Key.name : Key → String
  | minSeverity => "--min-severity"
  | threads => "--threads"
  | logFile => "--log-file"
  | format => "--format"

/-- Not a single dash, which is a name like any other. -/
def isDashed (s : String) : Bool := s.startsWith "-" && s != "-"

def attached? (s : String) : Option (Key × String) :=
  Key.all.findSome? fun key =>
    match s.dropPrefix? (key.name ++ "=") with
    | some value => some (key, value.toString)
    | none => none

/-- A count of 64 bits; a plus sign may stand in front, and zeros. -/
def count? (s : String) : Option Nat :=
  let digits :=
    match s.toList with
    | '+' :: digits => digits
    | digits => digits
  if digits ≠ [] ∧ digits.all Char.isDigit ∧ Text.ofDigits digits < UInt64.size then
    some (Text.ofDigits digits)
  else none

def path? (s : String) : Option String := if s.isEmpty then none else some s

structure Draft where
  files : List String
  minSeverity : Option Severity
  threads : Option Nat
  logFile : Option String
  format : Option Format
  denyWarnings : Bool
  deriving DecidableEq, Repr

def first? {α : Type} (before value : Option α) : Option α :=
  if before.isSome then none else value

namespace Draft

def empty : Draft := ⟨[], none, none, none, none, false⟩

def addFile? (d : Draft) (name : String) : Option Draft :=
  (path? name).map fun file => { d with files := d.files ++ [file] }

def set? (d : Draft) (key : Key) (value : String) : Option Draft :=
  match key with
  | .minSeverity =>
    (first? d.minSeverity (Severity.ofName? value)).map fun s => { d with minSeverity := some s }
  | .threads => (first? d.threads (count? value)).map fun n => { d with threads := some n }
  | .logFile => (first? d.logFile (path? value)).map fun p => { d with logFile := some p }
  | .format => (first? d.format (Format.ofName? value)).map fun f => { d with format := some f }

def denyWarnings? (d : Draft) : Option Draft :=
  if d.denyWarnings then none else some { d with denyWarnings := true }

/-- There is at least one file. -/
def finish? (d : Draft) : Option Command :=
  if d.files.isEmpty then none
  else
    let options := ⟨d.minSeverity.getD .info, d.denyWarnings, d.threads⟩
    some (.check ⟨d.files, options, d.format.getD .text, d.logFile⟩)

/-- What further arguments make of the draft; `none` if one of them cannot be understood. A single
dash may stand before several letters, of which the first decides. -/
def command? (d : Draft) : List String → Option Command
  | [] => d.finish?
  | arg :: rest =>
    if arg = "--" then (rest.foldlM addFile? d).bind finish?
    else if arg = "--help" ∨ arg.startsWith "-h" then some .help
    else if arg = "--version" ∨ arg.startsWith "-V" then some .version
    else if arg = "--deny-warnings" then d.denyWarnings?.bind fun next => next.command? rest
    else
      match Key.all.find? (·.name == arg), rest with
      | some key, value :: rest =>
        if isDashed value then none else (d.set? key value).bind fun next => next.command? rest
      | some _, [] => none
      | none, rest =>
        if isDashed arg then
          match attached? arg with
          | some (key, value) => (d.set? key value).bind fun next => next.command? rest
          | none => none
        else (d.addFile? arg).bind fun next => next.command? rest

end Draft

end CommandLine

def Command.ofArguments? (args : List String) : Option Command :=
  CommandLine.Draft.empty.command? args

end FlowLint
