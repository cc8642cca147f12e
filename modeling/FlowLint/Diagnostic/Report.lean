import FlowLint.Diagnostic.Sink

/-!
Reports: the diagnostics that are shown, and the verdict on the program. What is hidden still
counts, and decides about the verdict.
-/

namespace FlowLint

structure Options where
  /-- Diagnostics below this severity are hidden. -/
  minSeverity : Severity := .info
  denyWarnings : Bool := false
  /-- The number of workers; the system chooses if it is not given. -/
  threads : Option Nat := none
  deriving DecidableEq, Repr

namespace Options

def shows (o : Options) (d : Diagnostic) : Bool := o.minSeverity ≤ d.severity

/-- No code may be emitted for a program with this diagnostic. -/
def blocks (o : Options) (d : Diagnostic) : Bool :=
  match d.severity with
  | .error => true
  | .warning => o.denyWarnings
  | .info => false

end Options

structure Report where
  shown : List Diagnostic
  errors : Nat
  warnings : Nat
  infos : Nat
  blocked : Bool
  deriving DecidableEq, Repr

def Sink.report (s : Sink) (o : Options) : Report :=
  { shown := s.all.filter o.shows
    errors := s.count .error
    warnings := s.count .warning
    infos := s.count .info
    blocked := s.all.any o.blocks }

end FlowLint
