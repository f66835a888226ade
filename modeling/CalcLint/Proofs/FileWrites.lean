import CalcLint.FileTree
import Mathlib

/-!
# What overwriting a file changes

Two paths may lead to one file, for instance through `..`. Overwriting a file changes what every
path to it reads, and nothing that any other path reads: places are found through the names of a
tree, and a write keeps all of them.
-/
namespace CalcLint

/-- A place after the file at `location` has got new content. -/
def Place.overwritten (location : List String) (bytes : Bytes) : Place → Place
  | .file here old => .file here (if here = location then bytes else old)
  | .directory here => .directory here
  | .outside => .outside

namespace FileTree

/-- The tree in which every entry at `location` has got new content. -/
def overwrite (tree : FileTree) (location : List String) (bytes : Bytes) : FileTree :=
  ⟨tree.entries.map fun entry => if entry.1 = location then (location, some bytes) else entry⟩

variable {tree : FileTree} {location : List String} {bytes : Bytes}

@[simp] theorem lookup_overwrite (tree : FileTree) (location here : List String) (bytes : Bytes) :
    (tree.overwrite location bytes).entries.lookup here =
      (tree.entries.lookup here).map fun old => if here = location then some bytes else old := by
  unfold overwrite
  induction tree.entries with
  | nil => rfl
  | cons entry rest ih =>
    obtain ⟨name, old⟩ := entry
    by_cases hhere : here = name
    · subst hhere
      by_cases hlocation : here = location <;> simp [hlocation]
    · have hbeq : (here == name) = false := beq_false_of_ne hhere
      by_cases hlocation : name = location
      · subst hlocation
        simp [List.lookup, hbeq, ih]
      · simp [List.lookup, hlocation, hbeq, ih]

@[simp] theorem hasBelow_overwrite (tree : FileTree) (location here : List String) (bytes : Bytes) :
    (tree.overwrite location bytes).hasBelow here = tree.hasBelow here := by
  unfold hasBelow overwrite
  rw [List.any_map]
  congr 1
  funext entry
  by_cases h : entry.1 = location <;> simp [h]

/-- A file is found at a place exactly when it is the entry there. -/
@[simp] theorem get?_eq_file_iff {here found : List String} {old : Bytes} :
    tree.get? here = some (.file found old) ↔
      found = here ∧ tree.entries.lookup here = some (some old) := by
  unfold get?
  cases hlookup : tree.entries.lookup here with
  | none => by_cases hdir : here = [] || tree.hasBelow here <;> simp [hdir]
  | some content => cases content <;> simp [eq_comm]

theorem get?_overwrite {old : Bytes} (h : tree.entries.lookup location = some (some old))
    (here : List String) (bytes : Bytes) :
    (tree.overwrite location bytes).get? here =
      (tree.get? here).map (Place.overwritten location bytes) := by
  unfold get?
  rw [lookup_overwrite, hasBelow_overwrite]
  by_cases hhere : here = location
  · subst hhere
    simp [h, Place.overwritten]
  · cases hlookup : tree.entries.lookup here with
    | none => by_cases hdir : here = [] || tree.hasBelow here <;> simp [hdir, Place.overwritten]
    | some content => cases content <;> simp [hhere, Place.overwritten]

/-- A walk through the overwritten tree leads to the overwritten place. -/
theorem walk_overwrite {old : Bytes} (h : tree.entries.lookup location = some (some old))
    (place : Place) (parts : List String) (bytes : Bytes) :
    (tree.overwrite location bytes).walk (place.overwritten location bytes) parts =
      (tree.walk place parts).map (Place.overwritten location bytes) := by
  induction parts generalizing place with
  | nil => simp [walk, Except.map]
  | cons part parts ih =>
    cases place with
    | file here content => simp [walk, Place.overwritten, Except.map]
    | outside =>
      have houtside := ih .outside
      rw [Place.overwritten] at houtside ⊢
      rw [walk, walk]
      split_ifs
      · exact houtside
      · rfl
      · rfl
    | directory here =>
      rw [Place.overwritten, walk, walk]
      split_ifs with hup htop hlong
      · exact ih .outside
      · exact ih (.directory here.dropLast)
      · rfl
      · rw [get?_overwrite h]
        cases tree.get? (here ++ [part]) with
        | none => rfl
        | some found => exact ih found

/-- A walk ends at a file only where the tree has that file. -/
theorem lookup_of_walk_eq_file {place : Place} {parts found : List String} {old : Bytes}
    (hplace : ∀ here content, place = .file here content →
      tree.entries.lookup here = some (some content))
    (h : tree.walk place parts = .ok (.file found old)) :
    tree.entries.lookup found = some (some old) := by
  induction parts generalizing place with
  | nil =>
    rw [walk] at h
    exact hplace found old (Except.ok.inj h)
  | cons part parts ih =>
    cases place with
    | file here content => cases h
    | outside =>
      rw [walk] at h
      split_ifs at h
      exact ih (by simp) h
    | directory here =>
      rw [walk] at h
      split_ifs at h with hup htop hlong
      · exact ih (by simp) h
      · exact ih (by simp) h
      · cases hget : tree.get? (here ++ [part]) with
        | none => simp [hget] at h
        | some next =>
          rw [hget] at h
          refine ih ?_ h
          rintro there content rfl
          obtain ⟨rfl, hlookup⟩ := get?_eq_file_iff.mp hget
          exact hlookup

theorem lookup_of_locate_eq_file {path : Path} {found : List String} {old : Bytes}
    (h : tree.locate path = .ok (.file found old)) :
    tree.entries.lookup found = some (some old) := by
  unfold locate at h
  split_ifs at h with hlong hroot
  · exact lookup_of_walk_eq_file (by simp) h
  · exact lookup_of_walk_eq_file (by simp) h

theorem locate_overwrite {old : Bytes} (h : tree.entries.lookup location = some (some old))
    (path : Path) (bytes : Bytes) :
    (tree.overwrite location bytes).locate path =
      (tree.locate path).map (Place.overwritten location bytes) := by
  unfold locate
  split_ifs with hlong hroot
  · rfl
  · exact walk_overwrite h (.directory []) path.parts bytes
  · exact walk_overwrite h .outside path.parts bytes

/-- Two paths that lead to one file. -/
def SameFile (tree : FileTree) (one two : Path) : Prop :=
  ∃ location content content', tree.locate one = .ok (.file location content) ∧
    tree.locate two = .ok (.file location content')

theorem sameFile_iff {path other : Path} {old : Bytes}
    (h : tree.locate path = .ok (.file location old)) :
    tree.SameFile path other ↔ ∃ content, tree.locate other = .ok (.file location content) := by
  constructor
  · rintro ⟨there, _, content, hthere, hother⟩
    cases h.symm.trans hthere
    exact ⟨content, hother⟩
  · rintro ⟨content, hother⟩
    exact ⟨location, old, content, h, hother⟩

@[simp] theorem read_eq_ok_iff {path : Path} {content : Bytes} :
    tree.read path = .ok content ↔ ∃ location, tree.locate path = .ok (.file location content) := by
  unfold read
  cases tree.locate path with
  | error fault => simp
  | ok place => cases place <;> simp

/-- What a path reads after a write: the new content if it leads to the file written, and otherwise
what it read before. -/
theorem read_write {path : Path} {old : Bytes} (h : tree.read path = .ok old) (new : Bytes)
    (other : Path) :
    (tree.SameFile path other → (tree.write path new).read other = .ok new) ∧
    (¬ tree.SameFile path other → (tree.write path new).read other = tree.read other) := by
  obtain ⟨location, hlocate⟩ := read_eq_ok_iff.mp h
  have hwrite : tree.write path new = tree.overwrite location new := by
    simp only [write, hlocate, overwrite]
  rw [hwrite, sameFile_iff hlocate, read, read,
    locate_overwrite (lookup_of_locate_eq_file hlocate) other new]
  cases tree.locate other with
  | error fault => simp [Except.map]
  | ok place =>
    cases place with
    | file here content =>
      by_cases hhere : here = location <;> simp [Except.map, Place.overwritten, hhere]
    | directory here => simp [Except.map, Place.overwritten]
    | outside => simp [Except.map, Place.overwritten]

end FileTree

end CalcLint
