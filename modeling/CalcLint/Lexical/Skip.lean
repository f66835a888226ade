import CalcLint.Text.Lines

/-!
# Comments and strings on a line

Block comments run from `/*` to the first `*/` and may go on over lines; strings run from a
quote to the next quote that no backslash escapes, and end with their line at the latest. The
functions here take what follows an opening mark, with its column, and give what follows the closing
one, with its column; so a pass over a line proceeds from suffix to suffix.
-/
namespace CalcLint

/-- Whether a block comment opens at the front. -/
def opensComment : Line → Bool
  | c :: d :: _ => c == '/' && d == '*'
  | _ => false

/-- What follows the end of a block comment whose inside comes first; `none` when the comment is
still open at the end of the line. -/
def afterComment (column : Nat) : Line → Option (Nat × Line)
  | [] => none
  | [_] => none
  | c :: d :: rest =>
    if c = '*' ∧ d = '/' then some (column + 2, rest) else afterComment (column + 1) (d :: rest)

/-- What follows a string whose inside comes first. A backslash takes the next character with it,
and a string without a closing quote takes the rest of the line. -/
def afterString (column : Nat) : Line → Nat × Line
  | [] => (column, [])
  | [_] => (column + 1, [])
  | c :: d :: rest =>
    if c = '\\' then afterString (column + 2) rest
    else if c = '"' then (column + 1, d :: rest)
    else afterString (column + 1) (d :: rest)

theorem afterComment_length {column : Nat} {line : Line} {after : Nat × Line}
    (h : afterComment column line = some after) : after.2.length < line.length := by
  fun_induction afterComment column line with
  | case1 => contradiction
  | case2 => contradiction
  | case3 _ c d r _ => cases h; simp only [List.length_cons]; omega
  | case4 _ c d r _ ih => have := ih h; simp only [List.length_cons] at *; omega

theorem afterString_length_le (column : Nat) (line : Line) :
    (afterString column line).2.length ≤ line.length := by
  fun_induction afterString column line with
  | case1 => simp
  | case2 => simp
  | case3 _ d r ih => simp only [List.length_cons]; omega
  | case4 _ d r _ => simp
  | case5 _ c d r _ _ ih => simp only [List.length_cons] at *; omega

/-- The column behind a block comment whose inside begins at `column`, and whether it is still
open there. -/
def skipComment (line : Line) (column : Nat) : Nat × Bool :=
  match afterComment column (line.drop column) with
  | some after => (after.1, false)
  | none => (line.length, true)

/-- The column behind a string whose opening quote is at `column`. -/
def skipString (line : Line) (column : Nat) : Nat :=
  min (afterString (column + 1) (line.drop (column + 1))).1 line.length

/-- The column of the first character at or behind `column` that is not blank. -/
def skipBlanks (line : Line) (column : Nat) : Nat :=
  column + ((line.drop column).takeWhile isBlank).length

/-- Whether a block comment opens at `column`. -/
def opensCommentAt (line : Line) (column : Nat) : Bool :=
  opensComment (line.drop column)

end CalcLint
