import CalcLint.Lexical.Skip
import CalcLint.Text.Range

/-!
# Misplaced commas

The comma pass looks at the raw text. Beside the open comment it carries the depth of parentheses
and of brackets over line boundaries: a comma left at the end of a line closes a statement at top
level, and an incomplete list inside an enclosure. A closer without an opener leaves its depth at
zero.
-/
namespace CalcLint

/-- What is wrong with a comma. -/
inductive CommaFault where
  | trailing
  | double
  deriving DecidableEq, Repr

def CommaFault.name : CommaFault → String
  | .trailing => "trailing"
  | .double => "double"

/-- A misplaced comma on a line; it covers `width` characters from `column` on. -/
structure CommaSpot where
  fault : CommaFault
  column : Nat
  width : Nat
  deriving DecidableEq, Repr

/-- A misplaced comma of a document. -/
structure CommaIssue where
  fault : CommaFault
  line : Nat
  column : Nat
  width : Nat
  deriving DecidableEq, Repr

/-- Place a spot of line `number` in the document. -/
def CommaSpot.onLine (number : Nat) (s : CommaSpot) : CommaIssue :=
  ⟨s.fault, number, s.column, s.width⟩

/-- The column behind the last character of an issue. -/
def CommaIssue.stop (i : CommaIssue) : Nat :=
  i.column + i.width

def CommaIssue.range (i : CommaIssue) : Range :=
  Range.onLine i.line i.column i.width

/-- What the comma pass knows at a line boundary. A pass may be resumed with any depths. -/
structure CommaState where
  inComment : Bool := false
  parens : Int := 0
  brackets : Int := 0
  deriving DecidableEq, Repr

def CommaState.depth (s : CommaState) : Int :=
  s.parens + s.brackets

/-- The closing parenthesis and the closing bracket. -/
def isCloser (c : Char) : Bool :=
  c == ')' || c == ']'

/-- The depth behind a closer; one without an opener leaves none. -/
def closeDepth (depth : Int) : Int :=
  if 0 < depth then depth - 1 else 0

/-- The state behind one character of code. -/
def CommaState.step (s : CommaState) (c : Char) : CommaState :=
  match c with
  | '(' => { s with parens := s.parens + 1 }
  | ')' => { s with parens := closeDepth s.parens }
  | '[' => { s with brackets := s.brackets + 1 }
  | ']' => { s with brackets := closeDepth s.brackets }
  | _ => s

/-- What a look along a line finds: a character that is neither blank nor comment, or nothing but
the news whether a block comment is open at its end. -/
inductive Outlook where
  | found (c : Char)
  | nothing (inComment : Bool)
  deriving DecidableEq, Repr

/-- Look along code. Strings are not skipped: an opening quote is a character like any other. -/
def lookAlong (rest : Line) : Outlook :=
  match rest with
  | [] => .nothing false
  | c :: tail =>
    if opensComment (c :: tail) then
      match _ : afterComment 0 (tail.drop 1) with
      | none => .nothing true
      | some after => lookAlong after.2
    else if isBlank c then lookAlong tail
    else .found c
termination_by rest.length
decreasing_by
  · have := afterComment_length ‹_›
    simp only [List.length_drop, List.length_cons] at *
    omega
  · simp

/-- Look along a line that may begin inside a block comment. -/
def lookAlongLine (inComment : Bool) (line : Line) : Outlook :=
  if inComment then
    match afterComment 0 line with
    | none => .nothing true
    | some after => lookAlong after.2
  else lookAlong line

/-- The first character of the lines that is neither blank nor comment. -/
def nextSignificant? (inComment : Bool) : List Line → Option Char
  | [] => none
  | line :: below =>
    match lookAlongLine inComment line with
    | .found c => some c
    | .nothing stillOpen => nextSignificant? stillOpen below

/-- Judge the comma at `column`, where `after` is the line behind it and `below` the lines under
it. On its own line only blanks are skipped; over a line end comments are skipped too, and a closer
counts only if the comma is enclosed. -/
def judgeComma (enclosed : Bool) (below : List Line) (column : Nat) (after : Line) :
    Option CommaSpot :=
  match after.dropWhile isBlank with
  | c :: _ =>
    if c = ',' then some ⟨.double, column, (after.takeWhile isBlank).length + 2⟩
    else if isCloser c then some ⟨.trailing, column, 1⟩
    else none
  | [] =>
    match nextSignificant? false below with
    | some c =>
      if c = ',' then some ⟨.double, column, 1⟩
      else if enclosed && isCloser c then some ⟨.trailing, column, 1⟩
      else none
    | none => none

/-- The misplaced commas in `rest`, which is code and starts at `column`, and the state behind
the line. -/
def commaCode (below : List Line) (state : CommaState) (column : Nat) (rest : Line) :
    List CommaSpot × CommaState :=
  match rest with
  | [] => ([], { state with inComment := false })
  | c :: tail =>
    if opensComment (c :: tail) then
      match _ : afterComment (column + 2) (tail.drop 1) with
      | none => ([], { state with inComment := true })
      | some after => commaCode below state after.1 after.2
    else if c = '"' then
      let after := afterString (column + 1) tail
      commaCode below state after.1 after.2
    else if c = ',' then
      let found := commaCode below state (column + 1) tail
      match judgeComma (decide (0 < state.depth)) below column tail with
      | some spot => (spot :: found.1, found.2)
      | none => found
    else commaCode below (state.step c) (column + 1) tail
termination_by rest.length
decreasing_by
  · have := afterComment_length ‹_›
    simp only [List.length_drop, List.length_cons] at *
    omega
  · have := afterString_length_le (column + 1) tail
    simp only [List.length_cons]
    omega
  · simp
  · simp

/-- The misplaced commas of one line with the lines `below` it, and the state behind it. -/
def commaLine (state : CommaState) (line : Line) (below : List Line) :
    List CommaSpot × CommaState :=
  if state.inComment then
    match afterComment 0 line with
    | none => ([], state)
    | some after => commaCode below state after.1 after.2
  else commaCode below state 0 line

/-- The misplaced commas of the lines from number `first` on, and the state behind them. -/
def commaLines (state : CommaState) (first : Nat) : List Line → List CommaIssue × CommaState
  | [] => ([], state)
  | line :: below =>
    let here := commaLine state line below
    let later := commaLines here.2 (first + 1) below
    (here.1.map (CommaSpot.onLine first) ++ later.1, later.2)

/-- The misplaced commas of a document in reading order. -/
def commaIssues (text : Text) : List CommaIssue :=
  (commaLines {} 0 (lines text)).1

/-- Resume the comma pass at line `number` of a document. -/
def commaLineAt (document : List Line) (number : Nat) (state : CommaState) :
    Except LineError (List CommaIssue × CommaState) :=
  match document.drop number with
  | [] => .error (.ofNumber number)
  | line :: below =>
    let here := commaLine state line below
    .ok (here.1.map (CommaSpot.onLine number), here.2)

end CalcLint
