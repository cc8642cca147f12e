import FlowLint.Document.Graph
import FlowLint.Document.Symbol
import FlowLint.Program.Basic

namespace FlowLint

open Json (Decoder)

namespace Routine

def decode : Decoder Routine := .record ["symbol", "cfg", "type_ctx"] fun level fields => do
  let symbol ← fields.required "symbol" (Decoder.identifier level)
  let graph ← fields.optional "cfg" Graph.decode level
  let registry ← fields.withDefault "type_ctx" .empty (Registry.decode level)
  return { symbol, graph, registry }

def encode (r : Routine) : Json :=
  .record
    [("symbol", .nat r.symbol),
     ("cfg", .optional Graph.encode r.graph),
     ("type_ctx", r.registry.encode)]

end Routine

namespace Program

def decode : Decoder Program := .record ["symbols", "routines"] fun level fields => do
  let symbols ← fields.withDefault "symbols" .empty (SymbolTable.decode level)
  let routines ← fields.withDefault "routines" [] (Decoder.list Routine.decode level)
  return ⟨symbols, routines⟩

def encode (p : Program) : Json :=
  .record [("symbols", p.symbols.encode), ("routines", .list Routine.encode p.routines)]

end Program

end FlowLint
