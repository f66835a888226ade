import CalcLint.Calendar
import CalcLint.Number.Shortest
import CalcLint.Text.Quoted

/-!
# Configuration values

The values a configuration may hold. Tables keep the order of their entries. A value that cannot
be used is shown in a warning, in one line.
-/
namespace CalcLint

inductive Value where
  | null
  | bool (b : Bool)
  | int (n : Int)
  | real (x : Binary64)
  | text (s : String)
  | date (d : Date)
  | time (t : TimeOfDay)
  | moment (d : Date) (t : TimeOfDay) (offset : Option Offset)
  | list (items : List Value)
  | table (entries : List (String × Value))
  deriving Inhabited, Repr

namespace Value

/-- Numbers are written positionally from `1e-4` up to below `1e16`. -/
def realFormat : NumberFormat where
  positionalFrom := -4
  positionalBelow := 16
  exponentDigits := 2

mutual

def render : Value → String
  | .null => "None"
  | .bool true => "True"
  | .bool false => "False"
  | .int n => toString n
  | .real x => realFormat.write x
  | .text s => quoted s
  | .date d => d.render
  | .time t => t.render
  | .moment d t offset => renderMoment d t offset
  | .list items => "[" ++ ", ".intercalate (renderItems items) ++ "]"
  | .table entries => "\x7b" ++ ", ".intercalate (renderEntries entries) ++ "\x7d"

def renderItems : List Value → List String
  | [] => []
  | item :: rest => render item :: renderItems rest

def renderEntries : List (String × Value) → List String
  | [] => []
  | (key, value) :: rest => (quoted key ++ ": " ++ render value) :: renderEntries rest

end

end Value

/-- A table of configuration values, in the order of its entries. -/
abbrev Table := List (String × Value)

end CalcLint
