import FlowLint.Proofs.Remask.Tree

/-!
Expressions of the same shape that know less of their source, or are bound to something else. What
a retouch does to one layer is folded over all of them, so that the parts of a retouched expression
are the retouched parts.
-/

namespace FlowLint

variable {α β : Type}

/-- A change to each node by itself: whether it loses its source, and what becomes of the targets of
calls and of the references to types. -/
structure Retouch where
  erases : Bool
  target : CallTarget → CallTarget
  resolution : TypeResolution → TypeResolution

variable (t : Retouch)

def Retouch.span (span : Option Span) : Option Span := if t.erases then none else span

def TypeReference.touch (r : TypeReference α) : TypeReference α :=
  { r with resolution := t.resolution r.resolution, span := t.span r.span }

def Callee.touch : Callee α → Callee α
  | static type name => static (type.touch t) name
  | new type => new (type.touch t)
  | callee => callee

def Call.touch (c : Call α) : Call α :=
  { c with callee := c.callee.touch t, target := t.target c.target, nameSpan := t.span c.nameSpan }

def FieldAccess.touch (f : FieldAccess α) : FieldAccess α :=
  { f with containingType := f.containingType.map (·.touch t) }

def Form.touch : Form α → Form α
  | call c => call (c.touch t)
  | instanceOf operand type => instanceOf operand (type.touch t)
  | field f => field (f.touch t)
  | form => form

def Part.touch : Part α → Part α
  | expr value => expr value
  | type r => type (r.touch t)

theorem Name.parts_touch (n : Name α) : n.parts.map (Part.touch t) = n.parts := by
  cases n <;> rfl

theorem Callee.parts_touch (c : Callee α) : (c.touch t).parts = c.parts.map (Part.touch t) := by
  cases c <;> simp [touch, parts, Part.touch, Name.parts_touch]

theorem Form.parts_touch (f : Form α) : (f.touch t).parts = f.parts.map (Part.touch t) := by
  cases f with
  | call c => simp [touch, parts, Part.touch, Call.touch, Callee.parts_touch, Function.comp_def]
  | field f =>
    simp [touch, parts, Part.touch, FieldAccess.touch, Option.toList_map, Function.comp_def]
  | _ =>
    simp [touch, parts, Part.touch, Name.parts_touch, List.map_flatMap, Function.comp_def]

def Expr.retouch : Expr → Expr :=
  Expr.fold fun e layer => { e with form := layer.touch t, span := t.span e.span }

def TypeReference.retouch (r : TypeReference Expr) : TypeReference Expr :=
  (r.map (Expr.retouch t)).touch t

def Part.retouch : Part Expr → Part Expr
  | expr e => expr (e.retouch t)
  | type r => type (r.retouch t)

theorem Part.retouch_eq (p : Part Expr) : p.retouch t = (p.map (Expr.retouch t)).touch t := by
  cases p <;> rfl

namespace Expr

theorem retouch_eq (e : Expr) :
    e.retouch t = { e with form := (e.form.map (retouch t)).touch t, span := t.span e.span } :=
  fold_eq e

theorem form_retouch (e : Expr) : (e.retouch t).form = (e.form.map (retouch t)).touch t := by
  rw [retouch_eq]

@[simp] theorem span_retouch (e : Expr) : (e.retouch t).span = t.span e.span := by
  rw [retouch_eq]

@[simp] theorem mask_retouch (e : Expr) : (e.retouch t).mask = e.mask := by
  rw [retouch_eq]

@[simp] theorem access_retouch (e : Expr) : (e.retouch t).access = e.access := by
  rw [retouch_eq]

@[simp] theorem constant_retouch (e : Expr) : (e.retouch t).constant = e.constant := by
  rw [retouch_eq]

@[simp] theorem hostType_retouch (e : Expr) : (e.retouch t).hostType = e.hostType := by
  rw [retouch_eq]

theorem parts_retouch (e : Expr) :
    (e.retouch t).form.parts = e.form.parts.map (Part.retouch t) := by
  rw [form_retouch, Form.parts_touch, Form.parts_map, List.map_map]
  exact List.map_congr_left fun p _ => (p.retouch_eq t).symm

end Expr

theorem TypeReference.parts_retouch (r : TypeReference Expr) :
    (r.retouch t).parts = r.parts.map (Part.retouch t) := by
  obtain ⟨name, resolution, span⟩ := r
  cases name <;> rfl

end FlowLint
