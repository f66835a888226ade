import CalcLint.Text.Blank

/-!
# Texts and their lines

A text is the sequence of its code points, so columns and offsets count code points. Lines end at
a line feed; one carriage return in front of it belongs to the line break. Every text has at least
one line, and a final line break is followed by an empty line.
-/
namespace CalcLint

/-- A document, as the sequence of its code points. -/
abbrev Text := List Char

/-- One line of a document, without its line break. -/
abbrev Line := List Char

/-- Drop one carriage return from the end. -/
def chopReturn (piece : Line) : Line :=
  if piece.getLast? = some '\r' then piece.dropLast else piece

/-- The lines of a text. -/
def lines (text : Text) : List Line :=
  (text.splitOn '\n').map chopReturn

/-- The first number that is too large to be an index. -/
def indexLimit : Nat := 0x8000000000000000

/-- The wording for a number that is too large to be an index. -/
def indexLimitMessage : String := "cannot fit 'int' into an index-sized integer"

/-- Asking for a line that a document does not have. -/
inductive LineError where
  | beyondLines
  | beyondIndices
  deriving DecidableEq, Repr

/-- The error on asking for line `number`, which the document does not have. -/
def LineError.ofNumber (number : Nat) : LineError :=
  if number < indexLimit then .beyondLines else .beyondIndices

/-- The wording of a line error. -/
def LineError.message : LineError → String
  | .beyondLines => "list index out of range"
  | .beyondIndices => indexLimitMessage

/-- The blanks a line starts with. -/
def indentation (line : Line) : Line :=
  line.takeWhile isBlank

/-- The offset at which each line of a text starts. -/
def lineStarts (text : Text) : List Nat :=
  0 :: (text.zipIdx.filter (·.1 = '\n')).map (·.2 + 1)

/-- How a text ends its lines. -/
inductive LineEnding where
  | lf
  | crlf
  deriving DecidableEq, Repr

/-- The characters of a line ending. -/
def LineEnding.chars : LineEnding → Text
  | .lf => ['\n']
  | .crlf => ['\r', '\n']

/-- Whether some line feed follows a carriage return directly. -/
def hasCrlf : Text → Bool
  | [] => false
  | [_] => false
  | c :: d :: rest => (c = '\r' && d = '\n') || hasCrlf (d :: rest)

/-- The ending used for new lines: a text that holds one `\r\n` keeps to it. -/
def LineEnding.ofText (text : Text) : LineEnding :=
  if hasCrlf text then .crlf else .lf

end CalcLint
