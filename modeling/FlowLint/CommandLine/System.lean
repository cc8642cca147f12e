import FlowLint.Analysis
import FlowLint.File.Reader
import FlowLint.Program.Load

/-!
What a run asks of the system and of the libraries that it stands on: workers for the analysis of a
program, and words for what is wrong with a document. Nothing is assumed of them here.
-/

namespace FlowLint

structure System where
  /-- Starts workers, so many if a number is given, or says why they cannot be started. -/
  startPool : Option Nat → Except String Unit
  /-- What is wrong with a text that spells no program. -/
  explain : String → String

/-- What ends a run. -/
inductive Failure where
  | unreadable (path : String) (reason : ReadError)
  | malformed (reason : String)
  | defective (defect : Defect)
  | noPool (reason : String)
  deriving DecidableEq, Repr

def Failure.message : Failure → String
  | unreadable path reason => s!"failed to read '{path}': {reason.message}"
  | malformed reason => s!"invalid program JSON: {reason}"
  | defective defect => defect.message
  | noPool reason => s!"failed to start worker pool: {reason}"

namespace Program

def load (sys : System) (read : Reader) (path : String) : Except Failure Program :=
  match read path with
  | .error reason => .error (.unreadable path reason)
  | .ok text =>
    match ofText text with
    | .ok p => .ok p
    | .error .malformed => .error (.malformed (sys.explain text))
    | .error (.defective defect) => .error (.defective defect)

/-- Each program has workers of its own. What they yield does not depend on how many they are. -/
def analyzeOn (sys : System) (o : Options) (p : Program) : Except Failure Sink :=
  match sys.startPool o.threads with
  | .ok () => .ok p.analyze
  | .error reason => .error (.noPool reason)

end Program

end FlowLint
