import FlowLint.File.Place
import FlowLint.File.Reader

/-!
Files in memory. The directories on the way to a file are made with it. Main statement: what was
written to a path is read back from it.
-/

namespace FlowLint

/-- The directories that were made, and the files with their contents, the newest first. -/
structure Store where
  directories : List Place
  files : List (Place × String)
  deriving Repr

namespace Store

/-- Nothing was written yet: there is what every system has, a directory for temporary files and
the null device, which reads as empty. -/
def empty : Store where
  directories := [⟨.root, ["dev"]⟩, ⟨.root, ["tmp"]⟩]
  files := [(⟨.root, ["null", "dev"]⟩, "")]

def content? (s : Store) (p : Place) : Option String := s.files.lookup p

/-- The origins are directories, whether or not anything was written. -/
def isDirectory (s : Store) (p : Place) : Bool := p.names.isEmpty || s.directories.contains p

/-- The content that the moves lead to from a directory. Each move needs a directory to start
from, also one that stays or goes up. -/
def follow (s : Store) (d : Place) : List Move → Except ReadError String
  | [] => .error .directory
  | .stay :: moves => s.follow d moves
  | .up :: moves => s.follow d.parent moves
  | .down name :: moves =>
    if 255 < name.utf8ByteSize then .error .nameTooLong
    else
      match s.content? (d.child name) with
      | some content => if moves.isEmpty then .ok content else .error .notDirectory
      | none =>
        if s.isDirectory (d.child name) then s.follow (d.child name) moves else .error .missing

/-- The store in which the file that the moves lead to holds what `f` makes of what it held before;
`none` if no file can be there. Directories on the way are made. -/
def edit? (f : Option String → String) (s : Store) (d : Place) : List Move → Option Store
  | [] => none
  | .stay :: moves => s.edit? f d moves
  | .up :: moves => s.edit? f d.parent moves
  | .down name :: moves =>
    if 255 < name.utf8ByteSize then none
    else if moves.isEmpty then
      if s.isDirectory (d.child name) then none
      else some { s with files := (d.child name, f (s.content? (d.child name))) :: s.files }
    else
      match s.content? (d.child name) with
      | some _ => none
      | none =>
        edit? f { s with directories := d.child name :: s.directories } (d.child name) moves

/-- A path has less than this many bytes. -/
def pathLimit : Nat := 4096

def read (s : Store) : Reader := fun path =>
  if pathLimit ≤ path.utf8ByteSize then .error .nameTooLong
  else s.follow (.start path) (Place.moves path)

/-- The file is made if need be. -/
def write? (s : Store) (path content : String) : Option Store :=
  if pathLimit ≤ path.utf8ByteSize then none
  else s.edit? (fun _ => content) (.start path) (Place.moves path)

/-- The file is made if need be. -/
def append? (s : Store) (path text : String) : Option Store :=
  if pathLimit ≤ path.utf8ByteSize then none
  else s.edit? (fun before => before.getD "" ++ text) (.start path) (Place.moves path)

theorem lookup_cons_self (p : Place) (content : String) (files : List (Place × String)) :
    ((p, content) :: files).lookup p = some content := by
  rw [List.lookup_cons, beq_self_eq_true]

theorem lookup_cons_of_ne {p q : Place} (content : String) (files : List (Place × String))
    (h : p ≠ q) : ((q, content) :: files).lookup p = files.lookup p := by
  rw [List.lookup_cons, beq_eq_false_iff_ne.2 h]

theorem edit?_files {f : Option String → String} {s t : Store} {d : Place} {moves : List Move}
    (h : s.edit? f d moves = some t) :
    (∃ p content, t.files = (p, content) :: s.files ∧ t.isDirectory p = false) ∧
      ∀ q, s.isDirectory q = true → t.isDirectory q = true := by
  fun_induction edit? f s d moves with
  | case1 => cases h
  | case2 s d moves ih => exact ih h
  | case3 s d moves ih => exact ih h
  | case4 => cases h
  | case5 => cases h
  | case6 s d name moves _ _ free =>
    cases h
    exact ⟨⟨d.child name, _, rfl, by simpa [isDirectory] using free⟩, fun q hq => hq⟩
  | case7 => cases h
  | case8 s d name moves _ _ _ ih =>
    obtain ⟨⟨p, content, files, apart⟩, kept⟩ := ih h
    refine ⟨⟨p, content, files, apart⟩, fun q hq => kept q ?_⟩
    simp only [isDirectory, Bool.or_eq_true, List.contains_cons] at hq ⊢
    rcases hq with hq | hq
    · exact .inl hq
    · exact .inr (.inr hq)

theorem follow_edit? {f : Option String → String} {s t : Store} {d : Place} {moves : List Move}
    (h : s.edit? f d moves = some t) : ∃ before, t.follow d moves = .ok (f before) := by
  fun_induction edit? f s d moves with
  | case1 => cases h
  | case2 s d moves ih => exact ih h
  | case3 s d moves ih => exact ih h
  | case4 => cases h
  | case5 => cases h
  | case6 s d name moves short last free =>
    cases h
    refine ⟨s.content? (d.child name), ?_⟩
    rw [follow, if_neg short]
    simp only [content?, lookup_cons_self, last, ↓reduceIte]
  | case7 => cases h
  | case8 s d name moves short more unwritten ih =>
    obtain ⟨⟨p, content, files, apart⟩, kept⟩ := edit?_files h
    have made : t.isDirectory (d.child name) = true := kept _ (by simp [isDirectory])
    have other : d.child name ≠ p := by
      intro same
      rw [same, apart] at made
      cases made
    have absent : t.content? (d.child name) = none := by
      rw [content?, files, lookup_cons_of_ne _ _ other]
      exact unwritten
    obtain ⟨before, found⟩ := ih h
    refine ⟨before, ?_⟩
    rw [follow, if_neg short]
    simp only [absent, made, ↓reduceIte]
    exact found

theorem read_write? {s t : Store} {path content : String} (h : s.write? path content = some t) :
    t.read path = .ok content := by
  unfold write? at h
  unfold read
  split at h
  · cases h
  · rename_i short
    rw [if_neg short]
    exact (follow_edit? h).choose_spec

end Store

end FlowLint
