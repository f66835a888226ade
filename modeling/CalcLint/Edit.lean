import CalcLint.Text.Lines
import CalcLint.Text.Range

/-!
# Insertions into a text

An edit inserts a text at a position. Edits are applied together, all positions meaning the text
before any of them, so that none moves another. Edits at one offset keep the order in which they
were given.
-/
namespace CalcLint

structure Edit where
  position : Position
  newText : Text
  deriving DecidableEq, Repr

/-- The offset of a position, given where the lines start and how long the text is. A position
behind the text means its end; a character behind its line counts on into the lines below. -/
def offsetOf (starts : Array Nat) (length : Nat) (p : Position) : Nat :=
  match starts[p.line]? with
  | none => length
  | some start => min (start + p.character) length

/-- Each edit as the offset and the piece it inserts, in increasing order of offsets. -/
def insertions (text : Text) (edits : List Edit) : List (Nat × Text) :=
  let starts := (lineStarts text).toArray
  let length := text.length
  (edits.map fun e => (offsetOf starts length e.position, e.newText)).mergeSort fun a b => a.1 ≤ b.1

/-- Insert pieces, given in increasing order of offsets, into the text from offset `start` on. -/
def weave (start : Nat) : List (Nat × Text) → Text → Text
  | [], rest => rest
  | (offset, piece) :: more, rest =>
    rest.take (offset - start) ++ (piece ++ weave offset more (rest.drop (offset - start)))

def applyEdits (text : Text) (edits : List Edit) : Text :=
  weave 0 (insertions text edits) text

end CalcLint
