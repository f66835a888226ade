import CalcLint.Text.Lines

/-!
# Structural keywords

The six keywords that open, divide and close the blocks of a calculation script. A keyword is
recognised in any letter case, as a whole word: neither the character before it nor the one after
it may be a word character.
-/
namespace CalcLint

inductive Keyword where
  | fix
  | endfix
  | ifHead
  | elseIf
  | elseArm
  | endif
  deriving DecidableEq, Repr

/-- ASCII letters, digits and the underscore make up words. -/
def isWordChar (c : Char) : Bool :=
  c.isAlphanum || c == '_'

namespace Keyword

/-- All keywords: block delimiters first, then the conditional chain. -/
def all : List Keyword :=
  [.fix, .endfix, .ifHead, .elseIf, .elseArm, .endif]

def name : Keyword → String
  | .fix => "FIX"
  | .endfix => "ENDFIX"
  | .ifHead => "IF"
  | .elseIf => "ELSEIF"
  | .elseArm => "ELSE"
  | .endif => "ENDIF"

def spelling : Keyword → List Char
  | .fix => ['F', 'I', 'X']
  | .endfix => ['E', 'N', 'D', 'F', 'I', 'X']
  | .ifHead => ['I', 'F']
  | .elseIf => ['E', 'L', 'S', 'E', 'I', 'F']
  | .elseArm => ['E', 'L', 'S', 'E']
  | .endif => ['E', 'N', 'D', 'I', 'F']

def width (k : Keyword) : Nat :=
  k.spelling.length

theorem width_pos (k : Keyword) : 0 < k.width := by
  cases k <;> decide

/-- Stable number of a keyword: tens group the block delimiters and the conditional chain. -/
def number : Keyword → Nat
  | .fix => 10
  | .endfix => 11
  | .ifHead => 20
  | .elseIf => 21
  | .elseArm => 22
  | .endif => 23

/-- The order in which keywords are tried. -/
def priority : List Keyword :=
  [.elseIf, .elseArm, .ifHead, .endif, .fix, .endfix]

def ofName? (name : String) : Option Keyword :=
  all.find? (·.name == name)

/-- Whether `rest` begins with `k`, in any letter case, and the word ends there. -/
def begins (k : Keyword) (rest : Line) : Bool :=
  (rest.take k.width).map Char.toUpper == k.spelling &&
    !(rest.drop k.width).head?.any isWordChar

/-- The keyword at the front of `rest`, where `before` is the character in front of it. -/
def match? (before : Option Char) (rest : Line) : Option Keyword :=
  if before.any isWordChar then none else priority.find? (·.begins rest)

theorem width_le_of_begins {k : Keyword} {rest : Line} (h : k.begins rest = true) :
    k.width ≤ rest.length := by
  have hs : ((rest.take k.width).map Char.toUpper).length = k.spelling.length := by
    simp only [begins, Bool.and_eq_true, beq_iff_eq] at h
    rw [h.1]
  simp only [List.length_map, List.length_take] at hs
  have : k.width = k.spelling.length := rfl
  omega

theorem begins_of_match? {before : Option Char} {rest : Line} {k : Keyword}
    (h : match? before rest = some k) : k.begins rest = true := by
  unfold match? at h
  split at h
  · contradiction
  · exact List.find?_some (p := fun k : Keyword => k.begins rest) h

/-- Looking for a keyword in front of which the line holds no character. -/
inductive LookupError where
  | beyondLine
  | beyondIndices
  deriving DecidableEq, Repr

def LookupError.message : LookupError → String
  | .beyondLine => "string index out of range"
  | .beyondIndices => indexLimitMessage

/-- The keyword at a column of a line. The column may be one past the end, and no further. -/
def at? (chars : Line) : Nat → Except LookupError (Option Keyword)
  | 0 => .ok (match? none chars)
  | column + 1 =>
    match chars[column]? with
    | none => .error (if column < indexLimit then .beyondLine else .beyondIndices)
    | some before => .ok (match? (some before) (chars.drop (column + 1)))

end Keyword

end CalcLint
