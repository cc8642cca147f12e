import FlowLint.Json.Decoder
import Mathlib.Data.List.Basic

/-!
Decoders that keep what they read: written in the one form that the program writes, it is read
again as the same value. One law for each combinator.
-/

namespace FlowLint.Json.Decoder

variable {α β : Type} {level : Nat}

/-- What the decoder reads as this value, it reads as the same value from the form in which that is
written. -/
def Keeps (d : Decoder α) (write : α → Json) (level : Nat) (a : α) : Prop :=
  ∀ j, d level j = some a → d level (write a) = some a

def KeepsAlways (d : Decoder α) (write : α → Json) (a : α) : Prop :=
  ∀ level, d.Keeps write level a

def RejectsNull (d : Decoder α) : Prop := ∀ level, d level .null = none

theorem keeps_string (s : String) : string.Keeps .text level s := fun _ _ => rfl

theorem keeps_bool (b : Bool) : bool.Keeps .bool level b := fun _ _ => rfl

theorem integer_range {low high i : Int} {j : Json} (read : integer low high level j = some i) :
    low ≤ i ∧ i < high := by
  unfold integer at read
  split at read
  · exact of_decide_eq_true (Option.filter_eq_some_iff.1 read).2
  · cases read

theorem integer_number {low high i : Int} {n : Numeral} (value : n.toInt? = some i)
    (range : low ≤ i ∧ i < high) : integer low high level (.scalar (.number n)) = some i := by
  rw [integer, value, Option.filter_some, if_pos (decide_eq_true range)]

theorem keeps_integer {low high : Int} (i : Int) : (integer low high).Keeps .int level i :=
  fun _ read => integer_number (Numeral.toInt?_ofInt i) (integer_range read)

theorem map_eq_some {f : α → β} {d : Decoder α} {j : Json} {b : β} :
    d.map f level j = some b ↔ ∃ a, d level j = some a ∧ f a = b := Option.map_eq_some_iff

theorem Keeps.map {f : α → β} {d : Decoder α} {write : α → Json} {write' : β → Json} {b : β}
    (kept : ∀ a, f a = b → d.Keeps write level a) (same : ∀ a, write' (f a) = write a) :
    (d.map f).Keeps write' level b := by
  intro j read
  obtain ⟨a, first, rfl⟩ := map_eq_some.1 read
  rw [same]
  exact map_eq_some.2 ⟨a, kept a rfl j first, rfl⟩

theorem natural_nat {limit n : Nat} (small : n < limit) :
    natural limit level (.nat n) = some n := by
  refine map_eq_some.2 ⟨n, integer_number (Numeral.toInt?_ofNat n) ?_, rfl⟩
  omega

theorem keeps_natural {limit : Nat} (n : Nat) : (natural limit).Keeps .nat level n := by
  intro j read
  obtain ⟨i, first, rfl⟩ := map_eq_some.1 read
  have range := integer_range first
  apply natural_nat
  omega

theorem Keeps.optional {d : Decoder α} {write : α → Json} {o : Option α} (rejects : d.RejectsNull)
    (kept : ∀ a ∈ o, d.Keeps write level a) : d.optional.Keeps (.optional write) level o := by
  intro j read
  cases o with
  | none => rfl
  | some a =>
    have present : d level j = some a := by
      unfold Decoder.optional at read
      split at read
      · cases read
      · simpa using read
    have again := kept a rfl j present
    change d.optional level (write a) = _
    unfold Decoder.optional
    split
    · rename_i same
      rw [same] at again
      cases (rejects _).symm.trans again
    · rw [again]
      rfl

theorem list_write {d : Decoder α} {write : α → Json} {l : List α}
    (read : ∀ a ∈ l, d level (write a) = some a) :
    d.list (level + 1) (.list write l) = some l := by
  change (l.map write).mapM (d level) = some l
  induction l with
  | nil => rfl
  | cons a rest ih =>
    rw [List.forall_mem_cons] at read
    rw [List.map_cons, List.mapM_cons, read.1, ih read.2]
    rfl

theorem mem_of_mapM {f : α → Option β} {l : List α} {m : List β} (mapped : l.mapM f = some m)
    {b : β} (member : b ∈ m) : ∃ a ∈ l, f a = some b := by
  induction l generalizing m with
  | nil =>
    cases mapped
    cases member
  | cons a rest ih =>
    simp only [List.mapM_cons, Option.bind_eq_bind, Option.bind_eq_some_iff] at mapped
    obtain ⟨c, first, tail, others, same⟩ := mapped
    cases same
    rcases List.mem_cons.1 member with rfl | later
    · exact ⟨a, List.mem_cons_self, first⟩
    · obtain ⟨e, among, found⟩ := ih others later
      exact ⟨e, List.mem_cons_of_mem a among, found⟩

theorem mem_of_list {d : Decoder α} {j : Json} {l : List α} (read : d.list level j = some l) :
    ∃ inner, level = inner + 1 ∧ ∀ a ∈ l, ∃ i, d inner i = some a := by
  unfold list at read
  split at read
  · rename_i inner items
    refine ⟨inner, rfl, fun a member => ?_⟩
    obtain ⟨i, -, found⟩ := mem_of_mapM read member
    exact ⟨i, found⟩
  · cases read

theorem Keeps.list {d : Decoder α} {write : α → Json} {l : List α}
    (kept : ∀ inner, level = inner + 1 → ∀ a ∈ l, d.Keeps write inner a) :
    d.list.Keeps (.list write) level l := by
  intro j read
  obtain ⟨inner, rfl, members⟩ := mem_of_list read
  apply list_write
  intro a member
  obtain ⟨i, found⟩ := members a member
  exact kept inner rfl a member i found

theorem fields?_record {keys : List String} {members : List (String × Json)}
    (named : members.map Prod.fst = keys) (distinct : keys.Nodup) :
    fields? keys (.record members) = some members := by
  have texts : (members.map fun m => (some m.1, m.2)).mapM
      (fun (m : Text × Json) => m.1.map (·, m.2)) = some members := by
    clear named
    induction members with
    | nil => rfl
    | cons first rest ih =>
      rw [List.map_cons, List.mapM_cons, ih]
      rfl
  have known : members.filter (fun m => keys.contains m.1) = members := by
    rw [List.filter_eq_self]
    intro field member
    rw [List.contains_iff_mem, ← named]
    exact List.mem_map_of_mem member
  change Option.bind ((members.map fun m => (some m.1, m.2)).mapM
      (fun (m : Text × Json) => m.1.map (·, m.2))) (fun read =>
        let known := read.filter fun m => keys.contains m.1
        if (known.map Prod.fst).Nodup then some known else none) = _
  rw [texts, Option.bind_some]
  simp only [known]
  rw [if_pos (named ▸ distinct)]

theorem record_written {keys : List String} {body : Nat → Fields → Option α} {inner : Nat}
    {members : List (String × Json)} {a : α} (named : members.map Prod.fst = keys)
    (distinct : keys.Nodup) (again : body inner members = some a) :
    Decoder.record keys body (inner + 1) (.record members) = some a := by
  change (fields? keys _).bind _ = _
  rw [fields?_record named distinct]
  exact again

theorem record_eq_some {keys : List String} {body : Nat → Fields → Option α} {j : Json} {a : α}
    (read : Decoder.record keys body level j = some a) :
    ∃ inner fields, level = inner + 1 ∧ body inner fields = some a := by
  cases level with
  | zero => cases read
  | succ inner =>
    obtain ⟨fields, -, found⟩ := Option.bind_eq_some_iff.1 read
    exact ⟨inner, fields, rfl, found⟩

theorem Keeps.record {keys : List String} {body : Nat → Fields → Option α} {write : α → Json}
    {a : α} {members : List (String × Json)} (written : write a = .record members)
    (named : members.map Prod.fst = keys) (distinct : keys.Nodup)
    (kept : ∀ inner fields, level = inner + 1 → body inner fields = some a →
      body inner members = some a) :
    (Decoder.record keys body).Keeps write level a := by
  intro j read
  obtain ⟨inner, fields, rfl, found⟩ := record_eq_some read
  rw [written]
  exact record_written named distinct (kept inner fields rfl found)

variable {fields members : Fields} {key : String} {d : Decoder α} {write : α → Json}

theorem Keeps.required {a : α} (kept : d.Keeps write level a)
    (read : fields.required key (d level) = some a) (found : members.lookup key = some (write a)) :
    members.required key (d level) = some a := by
  obtain ⟨j, -, first⟩ := Option.bind_eq_some_iff.1 read
  rw [Fields.required, found]
  exact kept j first

theorem Keeps.withDefault {a default : α} (kept : d.Keeps write level a)
    (standard : d level (write default) = some default)
    (read : fields.withDefault key default (d level) = some a)
    (found : members.lookup key = some (write a)) :
    members.withDefault key default (d level) = some a := by
  have again : d level (write a) = some a := by
    unfold Fields.withDefault at read
    split at read
    · cases read
      exact standard
    · exact kept _ read
  rw [Fields.withDefault, found]
  exact again

theorem Keeps.optionalField {o : Option α} (rejects : d.RejectsNull)
    (kept : ∀ a ∈ o, d.Keeps write level a) (read : fields.optional key d level = some o)
    (found : members.lookup key = some (.optional write o)) :
    members.optional key d level = some o :=
  (Keeps.optional rejects kept).withDefault rfl read found

theorem bind_eq_some {x : Option α} {f : α → Option β} {b : β} :
    (x >>= f) = some b ↔ ∃ a, x = some a ∧ f a = some b := Option.bind_eq_some_iff

theorem return_eq_some {a b : α} : (pure a : Option α) = some b ↔ a = b := by
  rw [Option.pure_def, Option.some.injEq]

theorem choice?_text (name : String) : choice? level (.text name) = some (.bare name) := by
  cases level <;> rfl

theorem choice?_case (name : String) (value : Json) :
    choice? (level + 1) (case name value) = some (.carrying name level value) := rfl

theorem choice?_carrying {j value : Json} {name : String} {inner : Nat}
    (read : choice? level j = some (.carrying name inner value)) : level = inner + 1 := by
  unfold choice? at read
  split at read
  · cases read
  · cases read
    rfl
  · cases read

theorem plain_text {cases : List α} {tag : α → String} {name : String} :
    Decoder.plain cases tag level (.text name) = cases.find? (tag · == name) := by
  rw [Decoder.plain, choice?_text]
  rfl

theorem plain_written {cases : List α} {tag : α → String} {j : Json} {a : α}
    (read : Decoder.plain cases tag level j = some a) (inner : Nat) :
    Decoder.plain cases tag inner (.text (tag a)) = some a := by
  simp only [Decoder.plain, Option.bind_eq_bind, Option.bind_eq_some_iff] at read
  obtain ⟨choice, -, name, -, found⟩ := read
  have holds := List.find?_some found
  rw [← eq_of_beq holds] at found
  rw [plain_text]
  exact found

theorem mem_of_plain {cases : List α} {tag : α → String} {j : Json} {a : α}
    (read : Decoder.plain cases tag level j = some a) : a ∈ cases := by
  simp only [Decoder.plain, Option.bind_eq_bind, Option.bind_eq_some_iff] at read
  obtain ⟨choice, -, name, -, found⟩ := read
  exact List.mem_of_find?_eq_some found

theorem Keeps.plain {cases : List α} {tag : α → String} {a : α}
    (written : write a = .text (tag a)) : (Decoder.plain cases tag).Keeps write level a := by
  intro j read
  rw [written]
  exact plain_written read level

/-- What the reader of a case yields is written as this case, whose contents it reads again. -/
def KeepsCase (entry : String × Decoder α) (write : α → Json) (level : Nat) (a : α) : Prop :=
  ∀ j, entry.2 level j = some a →
    ∃ contents, write a = case entry.1 contents ∧ entry.2 level contents = some a

theorem KeepsCase.map {name : String} {f : α → β} {d : Decoder α} {write : α → Json}
    {write' : β → Json} {b : β} (kept : ∀ a, f a = b → d.Keeps write level a)
    (written : ∀ a, write' (f a) = case name (write a)) :
    KeepsCase (name, d.map f) write' level b := by
  intro j read
  obtain ⟨a, first, rfl⟩ := map_eq_some.1 read
  exact ⟨write a, written a, map_eq_some.2 ⟨a, kept a rfl j first, rfl⟩⟩

theorem KeepsCase.record {name : String} {keys : List String}
    {body : Nat → Fields → Option α} {write : α → Json} {a : α} (distinct : keys.Nodup)
    (kept : ∀ inner fields, level = inner + 1 → body inner fields = some a →
      ∃ members, write a = case name (.record members) ∧ members.map Prod.fst = keys ∧
        body inner members = some a) :
    KeepsCase (name, Decoder.record keys body) write level a := by
  intro j read
  obtain ⟨inner, fields, rfl, found⟩ := record_eq_some read
  obtain ⟨members, written, named, again⟩ := kept inner fields rfl found
  exact ⟨_, written, record_written named distinct again⟩

theorem carrying_eq_some {cases : List (String × Decoder α)} {j : Json} {a : α}
    (read : Decoder.carrying cases level j = some a) :
    ∃ inner entry value, level = inner + 1 ∧ entry ∈ cases ∧
      cases.lookup entry.1 = some entry.2 ∧ entry.2 inner value = some a := by
  simp only [Decoder.carrying, Option.bind_eq_bind, Option.bind_eq_some_iff] at read
  obtain ⟨choice, chosen, found⟩ := read
  cases choice with
  | bare => cases found
  | carrying given inner value =>
    obtain ⟨d, listed, taken⟩ := Option.bind_eq_some_iff.1 found
    have member : (given, d) ∈ cases := by
      obtain ⟨before, behind, rfl, -⟩ := List.lookup_eq_some_iff.1 listed
      exact List.mem_append_right _ List.mem_cons_self
    exact ⟨inner, (given, d), value, choice?_carrying chosen, member, listed, taken⟩

theorem carrying_written {cases : List (String × Decoder α)} {write : α → Json} {a : α} {j : Json}
    (kept : ∀ inner, level = inner + 1 → ∀ entry ∈ cases, KeepsCase entry write inner a)
    (read : Decoder.carrying cases level j = some a) :
    Decoder.carrying cases level (write a) = some a := by
  obtain ⟨inner, entry, value, rfl, member, listed, taken⟩ := carrying_eq_some read
  obtain ⟨contents, written, again⟩ := kept inner rfl entry member value taken
  rw [written, Decoder.carrying, choice?_case]
  change (cases.lookup entry.1).bind _ = _
  rw [listed]
  exact again

theorem Keeps.carrying {cases : List (String × Decoder α)} {write : α → Json} {a : α}
    (kept : ∀ inner, level = inner + 1 → ∀ entry ∈ cases, KeepsCase entry write inner a) :
    (Decoder.carrying cases).Keeps write level a :=
  fun _ read => carrying_written kept read

theorem carrying_text (cases : List (String × Decoder α)) (name : String) :
    Decoder.carrying cases level (.text name) = none := by
  rw [Decoder.carrying, choice?_text]
  rfl

theorem choice_eq_some {carrying : List (String × Decoder α)} {plain : List α} {tag : α → String}
    {j : Json} {a : α} (read : Decoder.choice carrying plain tag level j = some a) :
    a ∈ plain ∨ ∃ entry ∈ carrying, ∃ inner value, entry.2 inner value = some a := by
  rw [Decoder.choice] at read
  cases first : Decoder.carrying carrying level j with
  | some b =>
    rw [first] at read
    obtain rfl := Option.some.inj read
    obtain ⟨inner, entry, value, -, member, -, taken⟩ := carrying_eq_some first
    exact .inr ⟨entry, member, inner, value, taken⟩
  | none =>
    rw [first] at read
    exact .inl (mem_of_plain read)

theorem choice_text {carrying : List (String × Decoder α)} {plain : List α} {tag : α → String}
    {name : String} :
    Decoder.choice carrying plain tag level (.text name) = plain.find? (tag · == name) := by
  rw [Decoder.choice, carrying_text, plain_text]
  rfl

theorem Keeps.choice {carrying : List (String × Decoder α)} {plain : List α} {tag : α → String}
    {write : α → Json} {a : α} (bare : a ∈ plain → write a = .text (tag a))
    (kept : ∀ inner, level = inner + 1 → ∀ entry ∈ carrying, KeepsCase entry write inner a) :
    (Decoder.choice carrying plain tag).Keeps write level a := by
  intro j read
  rw [Decoder.choice] at read ⊢
  cases first : Decoder.carrying carrying level j with
  | some b =>
    rw [first] at read
    obtain rfl := Option.some.inj read
    rw [carrying_written kept first]
    rfl
  | none =>
    rw [first] at read
    rw [bare (mem_of_plain read), carrying_text, plain_written read level]
    rfl

theorem string_rejects : string.RejectsNull := fun _ => rfl

theorem natural_rejects {limit : Nat} : (natural limit).RejectsNull := fun _ => rfl

theorem record_rejects {keys : List String} {body : Nat → Fields → Option α} :
    (Decoder.record keys body).RejectsNull := fun level => by
  cases level <;> rfl

theorem carrying_rejects {cases : List (String × Decoder α)} :
    (Decoder.carrying cases).RejectsNull := fun level => by
  cases level <;> rfl

theorem plain_rejects {cases : List α} {tag : α → String} :
    (Decoder.plain cases tag).RejectsNull := fun level => by
  cases level <;> rfl

theorem choice_rejects {carrying : List (String × Decoder α)} {plain : List α} {tag : α → String} :
    (Decoder.choice carrying plain tag).RejectsNull := fun level => by
  rw [Decoder.choice, carrying_rejects, plain_rejects]
  rfl

end FlowLint.Json.Decoder
