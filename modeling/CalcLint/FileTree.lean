import CalcLint.Encoding
import CalcLint.Text.Quoted

/-!
# Paths and file trees

A path is kept without empty and `.` components; `..` stays, because it means the parent of
whatever is really there. A file tree holds the files below a working directory. Places outside it
count as directories of which nothing else is known.
-/
namespace CalcLint

/-- A path: its root, empty for a relative one, and its components. -/
structure Path where
  root : String
  parts : List String
  deriving DecidableEq, Repr

namespace Path

def components (s : String) : List String :=
  ((s.toList.splitOn '/').map String.ofList).filter fun part => part != "" && part != "."

/-- Read a path. Exactly two slashes in front are a root of their own. -/
def ofString (s : String) : Path :=
  let slashes := (s.toList.takeWhile (· == '/')).length
  let root := if slashes = 0 then "" else if slashes = 2 then "//" else "/"
  ⟨root, components s⟩

/-- Write a path; the empty path is `.`. -/
def render (p : Path) : String :=
  if p.root = "" ∧ p.parts = [] then "." else p.root ++ "/".intercalate p.parts

def name (p : Path) : String :=
  p.parts.getLast?.getD ""

def hasNull (p : Path) : Bool :=
  p.parts.any fun part => part.toList.contains '\x00'

/-- The part of a name from its last dot on, if something stands in front of the dot and behind
it. -/
def suffixOf (name : String) : String :=
  let behind := name.toList.reverse.takeWhile (· != '.')
  let before := name.toList.reverse.drop (behind.length + 1)
  if behind.isEmpty || before.isEmpty then ""
  else String.ofList ('.' :: behind.reverse)

end Path

/-- Why a file cannot be read. -/
inductive FileFault where
  | notFound
  | notDirectory
  | isDirectory
  | nameTooLong
  /-- Opening the file fails in another way, of which the system gives number and wording. -/
  | refused (number : Nat) (text : String)
  /-- The file is opened, but reading it fails. -/
  | brokenOff (number : Nat) (text : String)
  deriving DecidableEq, Repr

def FileFault.number : FileFault → Nat
  | .notFound => 2
  | .notDirectory => 20
  | .isDirectory => 21
  | .nameTooLong => 36
  | .refused number _ => number
  | .brokenOff number _ => number

def FileFault.text : FileFault → String
  | .notFound => "No such file or directory"
  | .notDirectory => "Not a directory"
  | .isDirectory => "Is a directory"
  | .nameTooLong => "File name too long"
  | .refused _ text => text
  | .brokenOff _ text => text

/-- Whether a file fault shows only after the file was opened. -/
def FileFault.isLate : FileFault → Bool
  | .brokenOff _ _ => true
  | _ => false

/-- How a file fault is reported. Once a file is open, its path is no longer known. -/
def FileFault.message (fault : FileFault) (path : Path) : String :=
  let report := s!"[Errno {fault.number}] {fault.text}"
  if fault.isLate then report else s!"{report}: {quoted path.render}"

/-- How files are read. -/
abbrev Disk := Path → Except FileFault Bytes

/-- Why nothing comes from a file: the system refuses to read it, or no system could be asked for
its path. -/
inductive ReadError where
  | fault (cause : FileFault)
  | nullInPath
  deriving DecidableEq, Repr

def nullInPathMessage : String := "embedded null byte"

/-- Read a file. No path with a null character reaches the disk. -/
def readFrom (disk : Disk) (path : Path) : Except ReadError Bytes :=
  if path.hasNull then .error .nullInPath else (disk path).mapError .fault

/-- Open a file. A fault that shows late is met when the open file is read. -/
def openFrom (disk : Disk) (path : Path) : Except ReadError (Except FileFault Bytes) :=
  match readFrom disk path with
  | .ok bytes => .ok (.ok bytes)
  | .error (.fault fault) => if fault.isLate then .ok (.error fault) else .error (.fault fault)
  | .error .nullInPath => .error .nullInPath

/-- The files and empty directories below a working directory, each at its components from
there. -/
structure FileTree where
  entries : List (List String × Option Bytes) := []
  deriving DecidableEq, Repr

/-- What is found at a place of a file tree. -/
inductive Place where
  | file (location : List String) (bytes : Bytes)
  | directory (location : List String)
  | outside
  deriving DecidableEq, Repr

namespace FileTree

def hasBelow (tree : FileTree) (location : List String) : Bool :=
  tree.entries.any fun entry => location.isPrefixOf entry.1 && location.length < entry.1.length

/-- What is found at given components. -/
def get? (tree : FileTree) (location : List String) : Option Place :=
  match tree.entries.lookup location with
  | some (some bytes) => some (.file location bytes)
  | some none => some (.directory location)
  | none => if location = [] || tree.hasBelow location then some (.directory location) else none

/-- Put a file or an empty directory at given components. -/
def put (tree : FileTree) (location : List String) (content : Option Bytes) : FileTree :=
  ⟨tree.entries.filter (·.1 != location) ++ [(location, content)]⟩

def maxNameBytes : Nat := 255

def maxPathBytes : Nat := 4095

/-- Walk from a place along components. -/
def walk (tree : FileTree) : Place → List String → Except FileFault Place
  | place, [] => .ok place
  | .file _ _, _ :: _ => .error .notDirectory
  | .outside, part :: parts =>
    if part = ".." then tree.walk .outside parts
    else if maxNameBytes < part.utf8ByteSize then .error .nameTooLong
    else .error .notFound
  | .directory location, part :: parts =>
    if part = ".." then
      tree.walk (if location = [] then .outside else .directory location.dropLast) parts
    else if maxNameBytes < part.utf8ByteSize then .error .nameTooLong
    else
      match tree.get? (location ++ [part]) with
      | none => .error .notFound
      | some place => tree.walk place parts

/-- What a path leads to. -/
def locate (tree : FileTree) (path : Path) : Except FileFault Place :=
  if maxPathBytes < path.render.utf8ByteSize then .error .nameTooLong
  else tree.walk (if path.root = "" then .directory [] else .outside) path.parts

def read (tree : FileTree) : Disk := fun path =>
  match tree.locate path with
  | .error fault => .error fault
  | .ok (.file _ bytes) => .ok bytes
  | .ok _ => .error .isDirectory

/-- Overwrite a file; nothing happens where there is none. A system may also refuse to write, for
want of permission or of room: it is taken for granted that a file which can be read can be
written. -/
def write (tree : FileTree) (path : Path) (bytes : Bytes) : FileTree :=
  match tree.locate path with
  | .ok (.file location _) =>
    ⟨tree.entries.map fun entry => if entry.1 = location then (location, some bytes) else entry⟩
  | _ => tree

/-- Overwrite files one after the other. -/
def writeAll (tree : FileTree) (writes : List (Path × Bytes)) : FileTree :=
  writes.foldl (fun t w => t.write w.1 w.2) tree

/-- Whether a path leads to a directory. That nothing is or can be at a path is an answer; that a
name is too long is a fault. -/
def isDirectory (tree : FileTree) (path : Path) : Except FileFault Bool :=
  if path.hasNull then .ok false
  else
    match tree.locate path with
    | .ok (.directory _) => .ok true
    | .ok .outside => .ok true
    | .ok (.file _ _) => .ok false
    | .error .notFound => .ok false
    | .error .notDirectory => .ok false
    | .error fault => .error fault

/-- The files below a path, each with its components from there. -/
def filesBelow (tree : FileTree) (path : Path) : List (List String × Bytes) :=
  match tree.locate path with
  | .ok (.directory location) =>
    tree.entries.filterMap fun entry =>
      match entry.2 with
      | some bytes =>
        if location.isPrefixOf entry.1 then some (entry.1.drop location.length, bytes) else none
      | none => none
  | _ => []

/-- The files of `after` that `before` does not have with the same content, sorted by path. -/
def changes (before after : FileTree) : List (String × Bytes) :=
  let changed := after.entries.filterMap fun entry =>
    match entry.2 with
    | some bytes =>
      if before.entries.lookup entry.1 = some (some bytes) then none
      else some ("/".intercalate entry.1, bytes)
    | none => none
  changed.mergeSort fun a b => decide (a.1 ≤ b.1)

end FileTree

end CalcLint
