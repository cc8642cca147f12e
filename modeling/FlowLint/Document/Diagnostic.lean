import FlowLint.Diagnostic.Basic
import FlowLint.Document.Value

namespace FlowLint

def Diagnostic.encode (d : Diagnostic) : Json :=
  .record
    [("routine", .nat d.routine),
     ("severity", .text d.severity.name),
     ("code", .text d.code),
     ("span", d.span.encode),
     ("message", .text d.message)]

end FlowLint
