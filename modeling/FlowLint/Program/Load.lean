import FlowLint.Document.Program
import FlowLint.Json.Document
import FlowLint.Program.Defect

namespace FlowLint

/-- Why a document is refused. -/
inductive LoadError where
  | malformed
  | defective (defect : Defect)
  deriving DecidableEq, Repr

namespace Program

def checked (p : Program) : Except LoadError Program :=
  match p.defect? with
  | some defect => .error (.defective defect)
  | none => .ok p

def ofJson (j : Json) : Except LoadError Program :=
  match decode.run j with
  | some p => p.checked
  | none => .error .malformed

def ofText (s : String) : Except LoadError Program :=
  match Json.parse? s with
  | some j => ofJson j
  | none => .error .malformed

end Program

end FlowLint
