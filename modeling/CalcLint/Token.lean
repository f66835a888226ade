import CalcLint.Keyword
import CalcLint.Lexical.Skip
import CalcLint.Text.Range

/-!
# Keyword tokens

The keyword pass over a document. It proceeds line by line; between lines only one fact is carried
on, whether a block comment is open. On a line it moves from suffix to suffix: over a comment, over
a string, over a keyword, or over one character of other code.
-/
namespace CalcLint

/-- A keyword on a line: its column and its spelling there. -/
structure Word where
  kind : Keyword
  column : Nat
  lexeme : Line
  deriving DecidableEq, Repr

/-- A keyword of a document. -/
structure Token where
  kind : Keyword
  line : Nat
  column : Nat
  lexeme : Line
  deriving DecidableEq, Repr

/-- What the keyword pass knows at a line boundary. -/
structure ScanState where
  inComment : Bool := false
  deriving DecidableEq, Repr

/-- Place a word of line `number` in the document. -/
def Word.onLine (number : Nat) (w : Word) : Token :=
  ⟨w.kind, number, w.column, w.lexeme⟩

def Token.range (t : Token) : Range :=
  Range.onLine t.line t.column t.lexeme.length

/-- The keywords in `rest`, which is code and starts at `column`; `before` is the character in
front of it. Also tells whether a block comment is open at the end of the line. -/
def scanCode (before : Option Char) (column : Nat) (rest : Line) : List Word × ScanState :=
  match rest with
  | [] => ([], ⟨false⟩)
  | c :: tail =>
    if opensComment (c :: tail) then
      match _ : afterComment (column + 2) (tail.drop 1) with
      | none => ([], ⟨true⟩)
      | some after => scanCode (some '/') after.1 after.2
    else if c = '"' then
      let after := afterString (column + 1) tail
      scanCode (some '"') after.1 after.2
    else
      match Keyword.match? before (c :: tail) with
      | some k =>
        let lexeme := (c :: tail).take k.width
        let found := scanCode lexeme.getLast? (column + k.width) ((c :: tail).drop k.width)
        (⟨k, column, lexeme⟩ :: found.1, found.2)
      | none => scanCode (some c) (column + 1) tail
termination_by rest.length
decreasing_by
  · have := afterComment_length ‹_›
    simp only [List.length_drop, List.length_cons] at *
    omega
  · have := afterString_length_le (column + 1) tail
    simp only [List.length_cons]
    omega
  · have := k.width_pos
    simp only [List.length_drop, List.length_cons]
    omega
  · simp

/-- The keywords of one line, and the state behind it. -/
def scanLine (state : ScanState) (line : Line) : List Word × ScanState :=
  if state.inComment then
    match afterComment 0 line with
    | none => ([], ⟨true⟩)
    | some after => scanCode (some '/') after.1 after.2
  else scanCode none 0 line

/-- The keywords of the lines from number `first` on, and the state behind them. -/
def scanLines (state : ScanState) (first : Nat) : List Line → List Token × ScanState
  | [] => ([], state)
  | line :: below =>
    let here := scanLine state line
    let later := scanLines here.2 (first + 1) below
    (here.1.map (Word.onLine first) ++ later.1, later.2)

/-- The keywords of a document in reading order. -/
def scan (text : Text) : List Token :=
  (scanLines {} 0 (lines text)).1

/-- Whether a block comment is still open at the end of a document. -/
def endsInComment (text : Text) : Bool :=
  (scanLines {} 0 (lines text)).2.inComment

end CalcLint
