import FlowLint.Main
import FlowLint.Rule.Step
import FlowLint.Proofs.Graph.Lookup
import FlowLint.Proofs.Graph.Plan
import FlowLint.Proofs.Walk
import FlowLint.Proofs.Rule.Judgement
import FlowLint.Proofs.Rule.Code
import FlowLint.Proofs.Remark
import FlowLint.Proofs.Graph.Reached
import FlowLint.Proofs.Graph.Region
import FlowLint.Proofs.Graph.Termination
import FlowLint.Proofs.Unsupported
import FlowLint.Proofs.Untyped
import FlowLint.Proofs.Related
import FlowLint.Proofs.Remask.Tree
import FlowLint.Proofs.Remask.Graph
import FlowLint.Proofs.Remask.Rule
import FlowLint.Proofs.Blurred
import FlowLint.Proofs.Rule.Unpacking
import FlowLint.Proofs.Program.Defect
import FlowLint.Proofs.Diagnostic.Sink
import FlowLint.Proofs.Pool
import FlowLint.Proofs.Json.Token
import FlowLint.Proofs.Json.Document
import FlowLint.Proofs.Document.Value
import FlowLint.Proofs.Document.Symbol
import FlowLint.Proofs.Document.Tree
import FlowLint.Proofs.Document.Graph
import FlowLint.Proofs.Document.Program
import FlowLint.Proofs.Graph.Correspondence
import FlowLint.Proofs.Correspondence
import FlowLint.Proofs.ParentConstructor
import FlowLint.Proofs.Renumbered
import FlowLint.Proofs.Phase
import FlowLint.Proofs.Retouch.Graph
import FlowLint.Proofs.Retouch.Rule
import FlowLint.Proofs.Unplaced
import FlowLint.Proofs.Unreached
import FlowLint.Proofs.Symbol.Arity
import FlowLint.Proofs.Lookup
import FlowLint.Proofs.Prune.Symbol
import FlowLint.Proofs.Prune.Rule
import FlowLint.Proofs.Pruned
import FlowLint.Proofs.CommandLine
import FlowLint.Proofs.Tree.Slot
import FlowLint.Proofs.Graph.Slot
import FlowLint.Proofs.Graph.Address
import FlowLint.Proofs.Visited
import FlowLint.Proofs.Counted
import FlowLint.Proofs.Rule.Place
import FlowLint.Proofs.Covered
import FlowLint.Proofs.Printf.Grammar
import FlowLint.Proofs.Printf.Scan
import FlowLint.Proofs.Printf.Count
import FlowLint.Proofs.Diagnostic.Report
import FlowLint.Proofs.Value.Mask
import FlowLint.Proofs.Value.Registry
import FlowLint.Proofs.Value.Union
import FlowLint.Proofs.Unregistered
import FlowLint.Proofs.Rule.ArgumentCount
import FlowLint.Proofs.ArrayKey
import FlowLint.Proofs.Double.Value
import FlowLint.Proofs.Rule.ArrayLiteral
import FlowLint.Proofs.Rule.DoubleKey
import FlowLint.Proofs.Rule.DeadCode
