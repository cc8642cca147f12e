import FlowLint.CommandLine.Run

namespace FlowLint

/-- The number of a system error, which may be given with either sign. -/
def errorNumber (code : UInt32) : UInt32 := min code (0 - code)

def ReadError.ofSystem : IO.Error → ReadError
  | .noFileOrDirectory _ _ _ => missing
  | .permissionDenied _ _ _ => denied
  | e@(.inappropriateType _ code _) =>
    if errorNumber code = 20 then notDirectory
    else if errorNumber code = 21 then directory
    else other e.toString
  | e@(.invalidArgument _ code _) =>
    if errorNumber code = 36 then nameTooLong else other e.toString
  | e => other e.toString

def readFile (name : String) : IO (Except ReadError String) := do
  try
    let bytes ← IO.FS.readBinFile name
    return match String.fromUTF8? bytes with
      | some text => .ok text
      | none => .error .notText
  catch e => return .error (.ofSystem e)

def LogFile.openHandle (l : LogFile) : IO IO.FS.Handle := do
  try IO.FS.Handle.mk l.path .append
  catch _ =>
    IO.FS.createDirAll l.directory
    IO.FS.Handle.mk l.path .append

/-- The rules are applied one after the other, which needs no other workers. -/
def System.sequential : System where
  startPool _ := .ok ()
  explain _ := "not a document of a program"

def Invocation.perform (i : Invocation) : IO Outcome := do
  try
    let log? ← i.logFile.mapM fun path => (LogFile.ofPath path).openHandle
    let contents ← i.files.mapM fun name => return (name, ← readFile name)
    let outcome := i.run .sequential fun name => (contents.lookup name).getD (.error .missing)
    if let (some log, some message) := (log?, outcome.message) then
      log.putStrLn message
    return outcome
  catch _ => return .unlogged

def usage : String :=
  "Reports semantic diagnostics for bound programs.\n\n" ++
  "Usage: phpc-diag [OPTIONS] <PROGRAMS>...\n\n" ++
  "Options:\n" ++
  "      --min-severity <MIN_SEVERITY>  Hide diagnostics below this severity\n" ++
  "      --deny-warnings                Fail when any warning is reported\n" ++
  "      --threads <THREADS>            Worker threads\n" ++
  "      --log-file <LOG_FILE>          Write logs to this file\n" ++
  "      --format <FORMAT>              How a report is printed: text or json\n" ++
  "  -h, --help                         Print help\n" ++
  "  -V, --version                      Print version\n"

def Command.perform : Command → IO Outcome
  | help => do
    IO.print usage
    return .success
  | version => do
    IO.println "phpc-diag 0.1.9"
    return .success
  | check i => i.perform

end FlowLint

open FlowLint

def main (args : List String) : IO UInt32 := do
  let outcome ←
    match Command.ofArguments? args with
    | some command => command.perform
    | none => pure .misused
  IO.print outcome.output
  if let some message := outcome.message then
    IO.eprintln message
  return outcome.exit.toUInt32
