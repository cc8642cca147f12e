import FlowLint.Document.Tree
import FlowLint.Graph.Basic

namespace FlowLint

open Json (Decoder)

namespace StaticVariable

def decode : Decoder StaticVariable := .record ["variable", "initializer"] fun level fields => do
  let var ← fields.required "variable" (Expr.decode level)
  let initial ← fields.optional "initializer" Expr.decode level
  return ⟨var, initial⟩

def encode (v : StaticVariable) : Json :=
  .record [("variable", v.var.encode), ("initializer", .optional Expr.encode v.initial)]

end StaticVariable

namespace StatementForm

def tag : StatementForm → String
  | expression _ => "expression"
  | «return» _ => "return"
  | yield _ _ => "yield"
  | echo _ => "echo"
  | unset _ => "unset"
  | staticVariables _ => "static_variables"
  | globals _ => "global"
  | declare _ => "declare"

def decodeYield : Decoder StatementForm := .record ["key", "value"] fun level fields => do
  let key ← fields.optional "key" Expr.decode level
  let value ← fields.optional "value" Expr.decode level
  return yield key value

def decodeDeclare : Decoder StatementForm := .record ["clause_span"] fun level fields => do
  let clause ← fields.required "clause_span" (Span.decode level)
  return declare clause

def decode : Decoder StatementForm :=
  .carrying
    [("expression", .map expression Expr.decode),
     ("return", .map «return» (.optional Expr.decode)),
     ("yield", decodeYield),
     ("echo", .map echo (.list Expr.decode)),
     ("unset", .map unset (.list Expr.decode)),
     ("static_variables", .map staticVariables (.list StaticVariable.decode)),
     ("global", .map globals (.list Expr.decode)),
     ("declare", decodeDeclare)]

def payload : StatementForm → Json
  | expression value => value.encode
  | «return» value => .optional Expr.encode value
  | yield key value =>
    .record [("key", .optional Expr.encode key), ("value", .optional Expr.encode value)]
  | echo values => .list Expr.encode values
  | unset values => .list Expr.encode values
  | staticVariables declared => .list StaticVariable.encode declared
  | globals values => .list Expr.encode values
  | declare clause => .record [("clause_span", clause.encode)]

def encode (f : StatementForm) : Json := .case f.tag f.payload

end StatementForm

namespace Statement

def decode : Decoder Statement := .record ["kind", "span"] fun level fields => do
  let form ← fields.required "kind" (StatementForm.decode level)
  let span ← fields.optional "span" Span.decode level
  return ⟨form, span⟩

def encode (s : Statement) : Json :=
  .record [("kind", s.form.encode), ("span", .optional Span.encode s.span)]

end Statement

namespace CatchHeader

def decode : Decoder CatchHeader := .record ["types", "variable"] fun level fields => do
  let types ← fields.required "types" (Decoder.list (TypeReference.decode Expr.decode) level)
  let caught ← fields.optional "variable" Expr.decode level
  return ⟨types, caught⟩

def encode (h : CatchHeader) : Json :=
  .record
    [("types", .list (TypeReference.encode Expr.encode) h.types),
     ("variable", .optional Expr.encode h.caught)]

end CatchHeader

namespace BlockKind

def tag : BlockKind → String
  | plain => "plain"
  | start => "start"
  | exit => "exit"
  | final => "finally"
  | handler _ => "catch"

def decode : Decoder BlockKind :=
  .choice [("catch", .map handler CatchHeader.decode)] [plain, start, exit, final] tag

def encode (k : BlockKind) : Json :=
  match k with
  | handler header => .case k.tag header.encode
  | _ => .text k.tag

end BlockKind

namespace SwitchCase

def decode : Decoder SwitchCase := .record ["label", "target"] fun level fields => do
  let label ← fields.optional "label" Expr.decode level
  let target ← fields.required "target" (Decoder.identifier level)
  return ⟨label, target⟩

def encode (c : SwitchCase) : Json :=
  .record [("label", .optional Expr.encode c.label), ("target", .nat c.target)]

end SwitchCase

namespace TryConstruct

def decode : Decoder TryConstruct :=
  .record ["body", "catches", "finally", "next"] fun level fields => do
    let body ← fields.required "body" (Decoder.identifier level)
    let handlers ← fields.withDefault "catches" [] (Decoder.list .identifier level)
    let final ← fields.optional "finally" .identifier level
    let next ← fields.required "next" (Decoder.identifier level)
    return { body, handlers, final, next }

def encode (t : TryConstruct) : Json :=
  .record
    [("body", .nat t.body),
     ("catches", .list .nat t.handlers),
     ("finally", .optional .nat t.final),
     ("next", .nat t.next)]

end TryConstruct

namespace Edge

def tag : Edge → String
  | jump _ => "simple"
  | loopBack _ => "loop_back"
  | branch _ _ _ => "conditional"
  | select _ _ => "switch"
  | foreach _ _ => "foreach_enumeree"
  | foreachNext _ _ _ _ => "foreach_move"
  | guarded _ => "try_catch"

def decodeTarget (edge : Nat → Edge) : Decoder Edge := .record ["target"] fun level fields => do
  let target ← fields.required "target" (Decoder.identifier level)
  return edge target

def decodeBranch : Decoder Edge :=
  .record ["condition", "true_target", "false_target"] fun level fields => do
    let condition ← fields.required "condition" (Expr.decode level)
    let whenTrue ← fields.required "true_target" (Decoder.identifier level)
    let whenFalse ← fields.required "false_target" (Decoder.identifier level)
    return branch condition whenTrue whenFalse

def decodeSelect : Decoder Edge := .record ["value", "cases"] fun level fields => do
  let value ← fields.required "value" (Expr.decode level)
  let cases ← fields.required "cases" (Decoder.list SwitchCase.decode level)
  return select value cases

def decodeForeach : Decoder Edge := .record ["enumeree", "target"] fun level fields => do
  let collection ← fields.required "enumeree" (Expr.decode level)
  let target ← fields.required "target" (Decoder.identifier level)
  return foreach collection target

def decodeForeachNext : Decoder Edge :=
  .record ["key_variable", "value_variable", "body", "next"] fun level fields => do
    let key ← fields.optional "key_variable" Expr.decode level
    let value ← fields.required "value_variable" (Expr.decode level)
    let body ← fields.required "body" (Decoder.identifier level)
    let next ← fields.required "next" (Decoder.identifier level)
    return foreachNext key value body next

def decode : Decoder Edge :=
  .carrying
    [("simple", decodeTarget jump),
     ("loop_back", decodeTarget loopBack),
     ("conditional", decodeBranch),
     ("switch", decodeSelect),
     ("foreach_enumeree", decodeForeach),
     ("foreach_move", decodeForeachNext),
     ("try_catch", .map guarded TryConstruct.decode)]

def payload : Edge → Json
  | jump target => .record [("target", .nat target)]
  | loopBack target => .record [("target", .nat target)]
  | branch condition whenTrue whenFalse =>
    .record
      [("condition", condition.encode), ("true_target", .nat whenTrue),
       ("false_target", .nat whenFalse)]
  | select value cases =>
    .record [("value", value.encode), ("cases", .list SwitchCase.encode cases)]
  | foreach collection target =>
    .record [("enumeree", collection.encode), ("target", .nat target)]
  | foreachNext key value body next =>
    .record
      [("key_variable", .optional Expr.encode key), ("value_variable", value.encode),
       ("body", .nat body), ("next", .nat next)]
  | guarded t => t.encode

def encode (e : Edge) : Json := .case e.tag e.payload

end Edge

namespace Block

def decode : Decoder Block :=
  .record ["ordinal", "kind", "statements", "edge"] fun level fields => do
    let ordinal ← fields.required "ordinal" (Decoder.identifier level)
    let kind ← fields.withDefault "kind" .plain (BlockKind.decode level)
    let statements ← fields.withDefault "statements" [] (Decoder.list Statement.decode level)
    let edge ← fields.optional "edge" Edge.decode level
    return { ordinal, kind, statements, edge }

def encode (b : Block) : Json :=
  .record
    [("ordinal", .nat b.ordinal),
     ("kind", b.kind.encode),
     ("statements", .list Statement.encode b.statements),
     ("edge", .optional Edge.encode b.edge)]

end Block

namespace Label

def decode : Decoder Label :=
  .record ["label", "span", "defined", "used", "redefined"] fun level fields => do
    let name ← fields.required "label" (Decoder.string level)
    let span ← fields.required "span" (Span.decode level)
    let isDefined ← fields.withDefault "defined" false (Decoder.bool level)
    let isUsed ← fields.withDefault "used" false (Decoder.bool level)
    let isRedefined ← fields.withDefault "redefined" false (Decoder.bool level)
    return { name, span, isDefined, isUsed, isRedefined }

def encode (l : Label) : Json :=
  .record
    [("label", .text l.name),
     ("span", l.span.encode),
     ("defined", .bool l.isDefined),
     ("used", .bool l.isUsed),
     ("redefined", .bool l.isRedefined)]

end Label

namespace Graph

def decode : Decoder Graph :=
  .record ["start", "exit", "blocks", "labels", "unreachable"] fun level fields => do
    let start ← fields.required "start" (Decoder.identifier level)
    let exit ← fields.required "exit" (Decoder.identifier level)
    let blocks ← fields.required "blocks" (Decoder.list Block.decode level)
    let labels ← fields.withDefault "labels" [] (Decoder.list Label.decode level)
    let unreachable ← fields.withDefault "unreachable" [] (Decoder.list .identifier level)
    return { start, exit, blocks, labels, unreachable }

def encode (g : Graph) : Json :=
  .record
    [("start", .nat g.start),
     ("exit", .nat g.exit),
     ("blocks", .list Block.encode g.blocks),
     ("labels", .list Label.encode g.labels),
     ("unreachable", .list .nat g.unreachable)]

end Graph

end FlowLint
