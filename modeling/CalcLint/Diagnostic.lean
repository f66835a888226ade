import CalcLint.Text.Range

/-!
# Diagnostics

What the linter reports: a code with its wording, a place, and a severity. The wording belongs to
the nine specifications below; a rule only chooses one and says where.
-/
namespace CalcLint

/-- How serious a diagnostic is. The linter itself uses `error`, `warning` and `info`; a caller may
bring a name of its own. -/
structure Severity where
  name : String
  deriving DecidableEq, Repr

namespace Severity

def error : Severity := ⟨"error"⟩

def warning : Severity := ⟨"warning"⟩

def info : Severity := ⟨"info"⟩

/-- The severities a configuration can ask for, in the order of their names. -/
def known : List Severity :=
  [error, info, warning]

/-- Read a known severity in any letter case. -/
def ofName? (name : String) : Option Severity :=
  known.find? fun s => s.name.toList == name.toList.map Char.toLower

end Severity

/-- The wording of one kind of diagnostic. -/
structure Spec where
  code : String
  message : String
  hint : String
  severity : Severity
  category : String
  deriving DecidableEq, Repr

namespace Spec

def missingEndfix : Spec where
  code := "missingEndfix"
  message := "Missing ENDFIX for this FIX."
  hint := "Insert ENDFIX after the block this FIX opens."
  severity := .error
  category := "lint/block"

def unmatchedEndfix : Spec where
  code := "unmatchedEndfix"
  message := "Unmatched ENDFIX: no preceding FIX."
  hint := "Remove this ENDFIX or add the FIX it closes."
  severity := .error
  category := "lint/block"

def missingEndif : Spec where
  code := "missingEndif"
  message := "Missing ENDIF for this IF."
  hint := "Insert ENDIF after the last branch of this conditional."
  severity := .error
  category := "lint/conditional"

def unmatchedEndif : Spec where
  code := "unmatchedEndif"
  message := "Unmatched ENDIF: no open IF."
  hint := "Remove this ENDIF or add the IF it closes."
  severity := .error
  category := "lint/conditional"

def unexpectedElseif : Spec where
  code := "unexpectedElseif"
  message := "ELSEIF outside of an IF block."
  hint := "ELSEIF must follow an IF and precede its ENDIF."
  severity := .error
  category := "lint/conditional"

def unexpectedElse : Spec where
  code := "unexpectedElse"
  message := "ELSE outside of an IF block."
  hint := "ELSE must follow an IF and precede its ENDIF."
  severity := .error
  category := "lint/conditional"

def duplicateElse : Spec where
  code := "duplicateElse"
  message := "Duplicate ELSE in the same IF block."
  hint := "An IF block may contain at most one ELSE branch."
  severity := .error
  category := "lint/conditional"

def trailingComma : Spec where
  code := "trailingComma"
  message := "Trailing comma before closing bracket."
  hint := "Remove the comma or add the missing list item."
  severity := .warning
  category := "lint/comma"

def duplicateComma : Spec where
  code := "duplicateComma"
  message := "Duplicate comma."
  hint := "Remove one of the commas or add the missing list item."
  severity := .warning
  category := "lint/comma"

/-- Every specification: blocks, then conditionals, then commas. -/
def all : List Spec :=
  [missingEndfix, unmatchedEndfix, missingEndif, unmatchedEndif, unexpectedElseif, unexpectedElse,
    duplicateElse, trailingComma, duplicateComma]

def ofCode? (code : String) : Option Spec :=
  all.find? (·.code == code)

end Spec

structure Diagnostic where
  code : String
  message : String
  range : Range
  severity : Severity := .error
  hint : Option String := none
  category : Option String := none
  rule : Option String := none
  deriving DecidableEq, Repr

/-- Report `spec` at `range`. Without a severity the one of the specification holds. -/
def Spec.report (spec : Spec) (severity : Option Severity) (rule : Option String) (range : Range) :
    Diagnostic where
  code := spec.code
  message := spec.message
  range := range
  severity := severity.getD spec.severity
  hint := some spec.hint
  category := some spec.category
  rule := rule

def hasErrors (diagnostics : List Diagnostic) : Bool :=
  diagnostics.any (·.severity == .error)

/-- Reading order of diagnostics: by range, then by code, then by message. -/
def Diagnostic.le (a b : Diagnostic) : Bool :=
  if a.range.start ≠ b.range.start then decide (a.range.start ≤ b.range.start)
  else if a.range.stop ≠ b.range.stop then decide (a.range.stop ≤ b.range.stop)
  else if a.code ≠ b.code then decide (a.code < b.code)
  else decide (a.message ≤ b.message)

/-- Diagnostics in reading order; those that agree in everything compared keep their order. -/
def sortDiagnostics (diagnostics : List Diagnostic) : List Diagnostic :=
  diagnostics.mergeSort Diagnostic.le

end CalcLint
