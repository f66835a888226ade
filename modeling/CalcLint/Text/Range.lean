/-!
# Positions and ranges

A position is a zero-based line and character; a range is half open and never ends before it
starts. Both are ordered by reading order. Coordinates that come from outside are integers and
are checked on the way in: first the start, then the end, then their order.
-/
namespace CalcLint

/-- Zero-based position in a document. -/
structure Position where
  line : Nat
  character : Nat
  deriving DecidableEq, Repr

namespace Position

/-- Reading order: by line, then by character. -/
def le (p q : Position) : Prop :=
  p.line < q.line ∨ p.line = q.line ∧ p.character ≤ q.character

instance : LE Position := ⟨Position.le⟩

instance (p q : Position) : Decidable (p ≤ q) :=
  inferInstanceAs (Decidable (_ ∨ _))

theorem le_def (p q : Position) :
    p ≤ q ↔ p.line < q.line ∨ p.line = q.line ∧ p.character ≤ q.character :=
  Iff.rfl

/-- Two positions on one line are ordered by their characters. -/
theorem le_of_character_le (line : Nat) {a b : Nat} (h : a ≤ b) :
    (⟨line, a⟩ : Position) ≤ ⟨line, b⟩ :=
  Or.inr ⟨rfl, h⟩

/-- How a position is shown. -/
def describe (p : Position) : String :=
  s!"TextPosition({p.line}, {p.character})"

end Position

/-- Why coordinates do not make a range. -/
inductive RangeError where
  | negativePosition
  | reversed
  deriving DecidableEq, Repr

/-- The wording of a range error. -/
def RangeError.message : RangeError → String
  | .negativePosition => "TextPosition cannot be negative"
  | .reversed => "TextRange invariant violated: start > end"

/-- A position from integer coordinates. -/
def Position.ofInts (line character : Int) : Except RangeError Position :=
  if line < 0 ∨ character < 0 then .error .negativePosition
  else .ok ⟨line.toNat, character.toNat⟩

/-- Half-open range of a document. -/
structure Range where
  start : Position
  stop : Position
  start_le_stop : start ≤ stop
  deriving DecidableEq, Repr

namespace Range

/-- A range from its two ends. -/
def ofPositions (start stop : Position) : Except RangeError Range :=
  if h : start ≤ stop then .ok ⟨start, stop, h⟩ else .error .reversed

/-- A range from integer coordinates. -/
def ofInts (startLine startCharacter stopLine stopCharacter : Int) : Except RangeError Range := do
  let start ← Position.ofInts startLine startCharacter
  let stop ← Position.ofInts stopLine stopCharacter
  ofPositions start stop

/-- The `width` characters of a line that begin at `column`. -/
def onLine (line column width : Nat) : Range where
  start := ⟨line, column⟩
  stop := ⟨line, column + width⟩
  start_le_stop := Position.le_of_character_le line (Nat.le_add_right column width)

/-- Whether a range stays on one line. -/
def isSingleLine (r : Range) : Bool :=
  r.start.line == r.stop.line

/-- By start, then by end. -/
def le (r s : Range) : Bool :=
  if r.start = s.start then decide (r.stop ≤ s.stop) else decide (r.start ≤ s.start)

/-- How a range is shown. -/
def describe (r : Range) : String :=
  s!"TextRange({r.start.describe}, {r.stop.describe})"

end Range

end CalcLint
