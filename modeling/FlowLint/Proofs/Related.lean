import Mathlib.Data.List.Forall2

variable {α β γ δ : Type} {R : α → β → Prop} {S : γ → δ → Prop}

namespace Option.Rel

variable {o : Option α} {o' : Option β}

theorem toList (related : Option.Rel R o o') : List.Forall₂ R o.toList o'.toList := by
  cases related with
  | some here => exact .cons here .nil
  | none => exact .nil

theorem bind {f : α → Option γ} {f' : β → Option δ} (related : Option.Rel R o o')
    (each : ∀ a b, R a b → Option.Rel S (f a) (f' b)) : Option.Rel S (o.bind f) (o'.bind f') := by
  cases related with
  | some here => exact each _ _ here
  | none => exact .none

theorem map_right {f : α → β} (each : ∀ a, R a (f a)) (o : Option α) :
    Option.Rel R o (o.map f) := by
  cases o with
  | none => exact .none
  | some a => exact .some (each a)

theorem isSome_eq (related : Option.Rel R o o') : o'.isSome = o.isSome := by
  cases related <;> rfl

end Option.Rel

namespace List.Forall₂

variable {l : List α} {l' : List β}

theorem map_right {f : α → β} (each : ∀ a, R a (f a)) (l : List α) :
    List.Forall₂ R l (l.map f) := by
  rw [List.forall₂_map_right_iff, List.forall₂_same]
  exact fun a _ => each a

theorem exists_of_mem (related : List.Forall₂ R l l') {a : α} (member : a ∈ l) :
    ∃ b ∈ l', R a b := by
  induction related with
  | nil => cases member
  | cons here _ ih =>
    rcases List.mem_cons.1 member with rfl | later
    · exact ⟨_, List.mem_cons_self, here⟩
    · obtain ⟨b, among, there⟩ := ih later
      exact ⟨b, List.mem_cons_of_mem _ among, there⟩

theorem exists_of_mem_right (related : List.Forall₂ R l l') {b : β} (member : b ∈ l') :
    ∃ a ∈ l, R a b := by
  have flipped : List.Forall₂ (fun b a => R a b) l' l := List.Forall₂.flip related
  exact flipped.exists_of_mem member

theorem map_eq {f : α → γ} {f' : β → γ} (related : List.Forall₂ R l l')
    (same : ∀ a b, R a b → f' b = f a) : l'.map f' = l.map f := by
  induction related with
  | nil => rfl
  | cons here _ ih => rw [List.map_cons, List.map_cons, same _ _ here, ih]

theorem flatMap_eq {f : α → List γ} {f' : β → List γ} (related : List.Forall₂ R l l')
    (same : ∀ a b, R a b → f' b = f a) : l'.flatMap f' = l.flatMap f := by
  rw [List.flatMap_def, List.flatMap_def, related.map_eq same]

theorem filterMap_eq {f : α → Option γ} {f' : β → Option γ} (related : List.Forall₂ R l l')
    (same : ∀ a b, R a b → f' b = f a) : l'.filterMap f' = l.filterMap f := by
  have mapped : (l'.map f').filterMap id = (l.map f).filterMap id := by rw [related.map_eq same]
  simpa [List.filterMap_map] using mapped

theorem any_eq {f : α → Bool} {f' : β → Bool} (related : List.Forall₂ R l l')
    (same : ∀ a b, R a b → f' b = f a) : l'.any f' = l.any f := by
  have mapped : (l'.map f').any id = (l.map f).any id := by rw [related.map_eq same]
  simpa [List.any_map] using mapped

theorem flatMap {f : α → List γ} {f' : β → List δ} (related : List.Forall₂ R l l')
    (each : ∀ a b, R a b → List.Forall₂ S (f a) (f' b)) :
    List.Forall₂ S (l.flatMap f) (l'.flatMap f') := List.rel_flatMap related each

/-- A relation of lists that is closed under concatenation. -/
theorem flatMap_of_append {T : List γ → List δ → Prop} {f : α → List γ} {f' : β → List δ}
    (related : List.Forall₂ R l l') (nothing : T [] [])
    (append : ∀ {first first' second second'}, T first first' → T second second' →
      T (first ++ second) (first' ++ second'))
    (each : ∀ a b, R a b → T (f a) (f' b)) : T (l.flatMap f) (l'.flatMap f') := by
  induction related with
  | nil => exact nothing
  | cons here _ ih => exact append (each _ _ here) ih

theorem filter {test : α → Bool} {test' : β → Bool} (related : List.Forall₂ R l l')
    (same : ∀ a b, R a b → test' b = test a) :
    List.Forall₂ R (l.filter test) (l'.filter test') :=
  List.rel_filter (fun a b here => by simp [same a b here]) related

theorem mergeSort {key : α → Nat} {key' : β → Nat} (related : List.Forall₂ R l l')
    (same : ∀ a b, R a b → key' b = key a) :
    List.Forall₂ R (l.mergeSort fun a b => key a ≤ key b)
      (l'.mergeSort fun a b => key' a ≤ key' b) := by
  -- both come from the list of pairs, sorted by the number of the first
  have length := related.length_eq
  have held : ∀ pair ∈ l.zip l', R pair.1 pair.2 := fun _ member => List.forall₂_zip related member
  have first : (l.zip l').map Prod.fst = l := List.map_fst_zip (Nat.le_of_eq length)
  have second : (l.zip l').map Prod.snd = l' := List.map_snd_zip (Nat.le_of_eq length.symm)
  let below (a b : α × β) : Bool := key a.1 ≤ key b.1
  have lefts : ((l.zip l').mergeSort below).map Prod.fst =
      l.mergeSort fun a b => key a ≤ key b := by
    conv => rhs; rw [← first]
    exact List.map_mergeSort fun _ _ _ _ => rfl
  have rights : ((l.zip l').mergeSort below).map Prod.snd =
      l'.mergeSort fun a b => key' a ≤ key' b := by
    conv => rhs; rw [← second]
    refine List.map_mergeSort fun a left b right => ?_
    simp only [below, same _ _ (held a left), same _ _ (held b right)]
  rw [← lefts, ← rights, List.forall₂_map_left_iff, List.forall₂_map_right_iff, List.forall₂_same]
  intro pair member
  exact held pair (List.mem_mergeSort.1 member)

theorem attach (related : List.Forall₂ R l l') : List.Forall₂ (fun a b => a ∈ l ∧ R a b) l l' :=
  (List.forall₂_and_left l l').2 ⟨fun _ member => member, related⟩

end List.Forall₂
