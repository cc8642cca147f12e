import FlowLint.Document.Value
import FlowLint.Proofs.Json.Decoder
import FlowLint.Proofs.Value.Registry

/-!
Spans, constants, types, masks and registries are read again as they are written. Doubles are left
out, since reading rounds them.
-/

namespace FlowLint

open Json (Decoder)
open Json.Decoder

variable {level : Nat}

theorem Span.keeps (s : Span) : Span.decode.Keeps Span.encode level s := by
  refine .record rfl rfl (by decide) ?_
  intro inner fields _ read
  simp only [bind_eq_some, return_eq_some] at read ⊢
  rcases read with ⟨start, first, stop, second, rfl⟩
  exact ⟨_, (keeps_natural _).required first rfl,
    _, (keeps_natural _).required second rfl, rfl⟩

theorem Constant.keeps {c : Constant} (noDouble : ∀ d, c ≠ .double d) :
    Constant.decode.Keeps Constant.encode level c := by
  refine .choice (fun plain => ?_) fun inner _ => ?_
  · rw [List.mem_singleton.1 plain]
    rfl
  · have doubles : KeepsCase ("double", Decoder.map double Double.decode) encode inner c := by
      intro j read
      obtain ⟨d, -, same⟩ := map_eq_some.1 read
      exact absurd same.symm (noDouble d)
    simp only [List.forall_mem_cons]
    exact ⟨.map (fun _ _ => keeps_bool _) fun _ => rfl,
      .map (fun _ _ => keeps_integer _) fun _ => rfl, doubles,
      .map (fun _ _ => keeps_string _) fun _ => rfl, nofun⟩

theorem ValueType.keeps (t : ValueType) : ValueType.decode.Keeps ValueType.encode level t := by
  refine .choice (fun plain => ?_) fun inner _ => ?_
  · revert t
    simp [builtin, encode]
  · simp only [List.forall_mem_singleton]
    apply KeepsCase.record (by decide)
    intro _ fields _ read
    simp only [bind_eq_some, return_eq_some] at read ⊢
    rcases read with ⟨name, first, symbol, second, rfl⟩
    exact ⟨_, rfl, rfl, _, (keeps_string _).required first rfl,
      _, Keeps.optionalField natural_rejects (fun _ _ => keeps_natural _) second rfl, rfl⟩

theorem HostType.keeps (t : HostType) : HostType.decode.Keeps HostType.encode level t := by
  refine .choice (fun plain => ?_) fun inner _ => ?_
  · revert t
    simp [builtin, encode]
  · simp only [List.forall_mem_singleton]
    exact .map (fun _ _ => keeps_natural _) fun _ => rfl

theorem Primitive.keeps (p : Primitive) : Primitive.decode.Keeps Primitive.encode level p :=
  .plain rfl

theorem Mask.decode_encode (m : Mask) : Mask.decode level m.encode = some m := by
  refine map_eq_some.2 ⟨m.bits.toNat, natural_nat m.bits.isLt, ?_⟩
  rw [BitVec.ofNat_toNat, BitVec.setWidth_eq]

theorem Mask.keeps (m : Mask) : Mask.decode.Keeps Mask.encode level m :=
  fun _ _ => m.decode_encode

namespace Registry

theorem keeps (r : Registry) : Registry.decode.Keeps Registry.encode level r := by
  intro j read
  obtain ⟨ts, first, rfl⟩ := map_eq_some.1 read
  obtain ⟨inner, rfl, members⟩ := mem_of_list first
  refine map_eq_some.2 ⟨(ofList ts).types, list_write fun t member => ?_, ofList_types _⟩
  have listed : t ∈ ts := (mem_insertAll_iff.1 member).resolve_left List.not_mem_nil
  obtain ⟨i, found⟩ := members t listed
  exact t.keeps i found

end Registry

end FlowLint
