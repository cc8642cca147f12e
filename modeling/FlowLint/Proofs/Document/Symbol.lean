import FlowLint.Document.Symbol
import FlowLint.Proofs.Document.Value

/-!
Declarations are read again as they are written. The defaults that are written out need some levels
of their own, which a symbol table always leaves.
-/

namespace FlowLint

open Json (Decoder)
open Json.Decoder

variable {level : Nat}

theorem TypeKind.keeps (k : TypeKind) : TypeKind.decode.Keeps (fun k => .text k.name) level k :=
  .plain rfl

theorem SpecialType.keeps (s : SpecialType) :
    SpecialType.decode.Keeps (fun s => .text s.tag) level s :=
  .plain rfl

theorem BaseType.keeps (b : BaseType) : BaseType.decode.Keeps BaseType.encode level b := by
  refine .record rfl rfl (by decide) ?_
  intro inner fields _ read
  simp only [bind_eq_some, return_eq_some] at read ⊢
  rcases read with ⟨name, h1, symbol, h2, rfl⟩
  exact ⟨_, (keeps_string _).required h1 rfl,
    _, Keeps.optionalField natural_rejects (fun _ _ => keeps_natural _) h2 rfl, rfl⟩

theorem TypeSymbol.keeps (t : TypeSymbol) :
    TypeSymbol.decode.Keeps TypeSymbol.encode level t := by
  refine .record rfl rfl (by decide) ?_
  intro inner fields _ read
  simp only [bind_eq_some, return_eq_some] at read ⊢
  rcases read with ⟨name, h1, enclosing, h2, kind, h3, isAbstract, h4, isStatic, h5, special, h6,
    base, h7, initializer, h8, rfl⟩
  exact ⟨_, (keeps_string _).required h1 rfl,
    _, Keeps.optionalField string_rejects (fun _ _ => keeps_string _) h2 rfl,
    _, kind.keeps.withDefault plain_text h3 rfl,
    _, (keeps_bool _).withDefault rfl h4 rfl,
    _, (keeps_bool _).withDefault rfl h5 rfl,
    _, Keeps.optionalField plain_rejects (fun s _ => s.keeps) h6 rfl,
    _, Keeps.optionalField record_rejects (fun b _ => b.keeps) h7 rfl,
    _, Keeps.optionalField natural_rejects (fun _ _ => keeps_natural _) h8 rfl, rfl⟩

namespace TypeHint

theorem keeps_within (depth : Nat) (h : TypeHint) (level : Nat) :
    (decodeWithin depth).Keeps encode level h := by
  induction depth generalizing h level with
  | zero => exact fun _ read => nomatch read
  | succ depth ih =>
    refine .carrying fun inner _ => ?_
    simp only [List.forall_mem_cons]
    exact ⟨.map (fun p _ => p.keeps) fun _ => rfl, .map (fun _ _ => keeps_string _) fun _ => rfl,
      .map (fun hint _ => ih hint inner) fun _ => rfl, nofun⟩

theorem keeps (h : TypeHint) : TypeHint.decode.Keeps encode level h := keeps_within level h level

theorem rejects : TypeHint.decode.RejectsNull := by
  intro level
  cases level <;> rfl

end TypeHint

theorem Parameter.keeps (p : Parameter) : Parameter.decode.Keeps Parameter.encode level p := by
  refine .record rfl rfl (by decide) ?_
  intro inner fields _ read
  simp only [bind_eq_some, return_eq_some] at read ⊢
  rcases read with ⟨name, h1, ordinal, h2, isOptional, h3, isVariadic, h4, isImplicit, h5,
    hasDefault, h6, hint, h7, rfl⟩
  exact ⟨_, (keeps_string _).required h1 rfl,
    _, (keeps_natural _).required h2 rfl,
    _, (keeps_bool _).withDefault rfl h3 rfl,
    _, (keeps_bool _).withDefault rfl h4 rfl,
    _, (keeps_bool _).withDefault rfl h5 rfl,
    _, (keeps_bool _).withDefault rfl h6 rfl,
    _, Keeps.optionalField TypeHint.rejects (fun h _ => h.keeps) h7 rfl, rfl⟩

theorem RoutineKind.keeps (k : RoutineKind) :
    RoutineKind.decode.Keeps (fun k => .text k.tag) level k :=
  .plain rfl

namespace RoutineSymbol

theorem keeps_deprecation (message : String) :
    decodeDeprecation.Keeps encodeDeprecation level message := by
  refine .record rfl rfl (by decide) ?_
  intro inner fields _ read
  exact (keeps_string _).withDefault rfl read rfl

theorem keeps (r : RoutineSymbol) : decode.Keeps encode (level + 2) r := by
  refine .record rfl rfl (by decide) ?_
  intro inner fields deep read
  cases deep
  simp only [bind_eq_some, return_eq_some] at read ⊢
  rcases read with ⟨name, h1, kind, h2, containingType, h3, parameters, h4, isAbstract, h5,
    isStatic, h6, deprecation, h7, returnHint, h8, heading, h9, rfl⟩
  have parametersKept : (Decoder.list Parameter.decode).Keeps (.list Parameter.encode) (level + 1)
      parameters := .list fun _ _ p _ => p.keeps
  exact ⟨_, (keeps_string _).required h1 rfl,
    _, kind.keeps.withDefault plain_text h2 rfl,
    _, Keeps.optionalField natural_rejects (fun _ _ => keeps_natural _) h3 rfl,
    _, parametersKept.withDefault rfl h4 rfl,
    _, (keeps_bool _).withDefault rfl h5 rfl,
    _, (keeps_bool _).withDefault rfl h6 rfl,
    _, Keeps.optionalField record_rejects (fun m _ => keeps_deprecation m) h7 rfl,
    _, Keeps.optionalField TypeHint.rejects (fun h _ => h.keeps) h8 rfl,
    _, heading.keeps.withDefault rfl h9 rfl, rfl⟩

end RoutineSymbol

theorem SymbolTable.keeps (s : SymbolTable) :
    SymbolTable.decode.Keeps SymbolTable.encode (level + 4) s := by
  refine .record rfl rfl (by decide) ?_
  intro inner fields deep read
  cases deep
  simp only [bind_eq_some, return_eq_some] at read ⊢
  rcases read with ⟨types, h1, routines, h2, rfl⟩
  have typesKept : (Decoder.list TypeSymbol.decode).Keeps (.list TypeSymbol.encode) (level + 3)
      types := .list fun _ _ t _ => t.keeps
  have routinesKept : (Decoder.list RoutineSymbol.decode).Keeps (.list RoutineSymbol.encode)
      (level + 3) routines := by
    refine .list fun inner deep r _ => ?_
    cases deep
    exact r.keeps
  exact ⟨_, typesKept.withDefault rfl h1 rfl,
    _, routinesKept.withDefault rfl h2 rfl, rfl⟩

end FlowLint
