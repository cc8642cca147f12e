import FlowLint.Tree.Fold
import Mathlib.Data.List.Forall2

/-!
Expressions that differ in nothing but their masks. Two layers match if they have the same shape and
related expressions at the same places: both come from one layer of pairs. The layers of an
expression and of what it is remasked to match all the way down.
-/

namespace FlowLint

variable {α β : Type}

def TypeReference.exprs (t : TypeReference α) : List α :=
  match t.name with
  | .indirect value => [value]
  | _ => []

namespace Part

def map (f : α → β) : Part α → Part β
  | expr value => .expr (f value)
  | type t => .type (t.map f)

def exprs : Part α → List α
  | expr value => [value]
  | type t => t.exprs

end Part

def Form.exprs (f : Form α) : List α := f.parts.flatMap Part.exprs

theorem Form.mem_exprs_of_part {f : Form α} {value : α} (part : .expr value ∈ f.parts) :
    value ∈ f.exprs := List.mem_flatMap.2 ⟨.expr value, part, List.mem_singleton.2 rfl⟩

@[simp] theorem Call.target_map (f : α → β) (c : Call α) : (c.map f).target = c.target := rfl

@[simp] theorem Call.nameSpan_map (f : α → β) (c : Call α) : (c.map f).nameSpan = c.nameSpan := rfl

theorem Name.parts_map (f : α → β) (n : Name α) : (n.map f).parts = n.parts.map (Part.map f) := by
  cases n <;> rfl

theorem TypeReference.parts_map (f : α → β) (t : TypeReference α) :
    (t.map f).parts = t.parts.map (Part.map f) := by
  obtain ⟨name, resolution, span⟩ := t
  cases name <;> rfl

theorem Callee.parts_map (f : α → β) (c : Callee α) :
    (c.map f).parts = c.parts.map (Part.map f) := by
  cases c <;> simp [parts, map, Part.map, Name.parts_map]

theorem Form.parts_map (f : α → β) (layer : Form α) :
    (layer.map f).parts = layer.parts.map (Part.map f) := by
  have toList (o : Option α) : (o.map f).toList = o.toList.map f := by cases o <;> rfl
  have types (o : Option (TypeReference α)) :
      (o.map (TypeReference.map f)).toList = o.toList.map (TypeReference.map f) := by
    cases o <;> rfl
  cases layer <;>
    simp [parts, map, Part.map, Name.parts_map, Callee.parts_map, Variable.map, ArrayItem.map,
      Argument.map, Call.map, FieldAccess.map, toList, types, Function.comp_def,
      List.flatMap_map, List.map_flatMap]

/-- Layers of the same shape, with related expressions at the same places. -/
inductive Form.Matches (R : Expr → Expr → Prop) : Form Expr → Form Expr → Prop where
  | intro (layer : Form (Expr × Expr)) : (∀ pair ∈ layer.exprs, R pair.1 pair.2) →
      Matches R (layer.map Prod.fst) (layer.map Prod.snd)

inductive TypeReference.Matches (R : Expr → Expr → Prop) :
    TypeReference Expr → TypeReference Expr → Prop where
  | intro (t : TypeReference (Expr × Expr)) : (∀ pair ∈ t.exprs, R pair.1 pair.2) →
      Matches R (t.map Prod.fst) (t.map Prod.snd)

inductive Part.Matches (R : Expr → Expr → Prop) : Part Expr → Part Expr → Prop where
  | expr {e e' : Expr} : R e e' → Matches R (.expr e) (.expr e')
  | type {t t' : TypeReference Expr} : t.Matches R t' → Matches R (.type t) (.type t')

variable {R : Expr → Expr → Prop}

theorem Part.matches_map (p : Part (Expr × Expr)) (related : ∀ pair ∈ p.exprs, R pair.1 pair.2) :
    (p.map Prod.fst).Matches R (p.map Prod.snd) := by
  cases p with
  | expr pair => exact .expr (related pair (List.mem_singleton.2 rfl))
  | type t => exact .type (.intro t related)

theorem Form.Matches.parts {f f' : Form Expr} (m : f.Matches R f') :
    List.Forall₂ (Part.Matches R) f.parts f'.parts := by
  obtain ⟨layer, related⟩ := m
  rw [Form.parts_map, Form.parts_map, List.forall₂_map_left_iff, List.forall₂_map_right_iff,
    List.forall₂_same]
  intro p member
  exact p.matches_map fun pair inside => related pair (List.mem_flatMap.2 ⟨p, member, inside⟩)

theorem TypeReference.Matches.parts {t t' : TypeReference Expr} (m : t.Matches R t') :
    List.Forall₂ (Part.Matches R) t.parts t'.parts := by
  obtain ⟨⟨name, resolution, span⟩, related⟩ := m
  cases name with
  | indirect pair => exact .cons (.expr (related pair (List.mem_singleton.2 rfl))) .nil
  | _ => exact .nil

inductive Expr.Remasked (M : Mask → Mask → Prop) : Expr → Expr → Prop where
  | intro {form form' : Form Expr} {span : Option Span} {mask mask' : Mask} {access : Access}
      {constant : Option Constant} {hostType : Option HostType} :
      form.Matches (Remasked M) form' → M mask mask' →
      Remasked M ⟨form, span, mask, access, constant, hostType⟩
        ⟨form', span, mask', access, constant, hostType⟩

namespace Expr.Remasked

variable {M : Mask → Mask → Prop} {e e' : Expr}

theorem form (remasked : e.Remasked M e') : e.form.Matches (Remasked M) e'.form := by
  cases remasked with
  | intro layers _ => exact layers

theorem mask (remasked : e.Remasked M e') : M e.mask e'.mask := by
  cases remasked with
  | intro _ masks => exact masks

theorem span (remasked : e.Remasked M e') : e'.span = e.span := by
  cases remasked
  rfl

theorem access (remasked : e.Remasked M e') : e'.access = e.access := by
  cases remasked
  rfl

theorem constant (remasked : e.Remasked M e') : e'.constant = e.constant := by
  cases remasked
  rfl

theorem hostType (remasked : e.Remasked M e') : e'.hostType = e.hostType := by
  cases remasked
  rfl

end Expr.Remasked

end FlowLint
