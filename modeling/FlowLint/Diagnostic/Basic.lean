import FlowLint.Diagnostic.Finding
import FlowLint.Symbol.Basic

namespace FlowLint

structure Diagnostic where
  routine : RoutineId
  span : Span
  finding : Finding
  deriving DecidableEq, Repr

namespace Diagnostic

def severity (d : Diagnostic) : Severity := d.finding.severity

def code (d : Diagnostic) : String := d.finding.code

def message (d : Diagnostic) : String := d.finding.message

def text (d : Diagnostic) : String :=
  d.severity.name ++ "[" ++ d.code ++ "] " ++ d.span.text ++ ": " ++ d.message

end Diagnostic

end FlowLint
