import CalcLint.Edit
import CalcLint.Lint

/-!
# Fixing missing closers

A missing `ENDFIX` or `ENDIF` is mended by a new line directly below the line of its opener, with
that line's indentation. A run of fixes mends every missing closer of one lint run at once; the
single fix mends the last missing `ENDFIX` only.
-/
namespace CalcLint

/-- An offer to mend a diagnostic. -/
structure Action where
  title : String
  diagnostic : Diagnostic
  edits : List Edit
  preferred : Bool := true
  deriving DecidableEq, Repr

/-- The specifications that can be mended, each with the keyword that is missing. -/
def closingKeywords : List (Spec × Keyword) :=
  [(.missingEndfix, .endfix), (.missingEndif, .endif)]

/-- The keyword whose absence a code reports. -/
def closingKeyword? (code : String) : Option Keyword :=
  (closingKeywords.find? (·.1.code == code)).map (·.2)

/-- Insert a closing word below the line of its opener. Below the last line there is none to insert
in front of, so the line break then comes first. -/
def insertClosing (document : Array Line) (opener : Nat) (word newline : Text) :
    Except LineError Edit :=
  match document[opener]? with
  | none => .error (.ofNumber opener)
  | some line =>
    if opener + 1 < document.size then
      .ok ⟨⟨opener + 1, 0⟩, indentation line ++ word ++ newline⟩
    else
      .ok ⟨⟨opener, line.length⟩, newline ++ indentation line ++ word⟩

/-- The offer for one diagnostic, if it can be mended. -/
def quickFix? (document : Array Line) (ending : LineEnding) (d : Diagnostic) :
    Option (Except LineError Action) :=
  (closingKeyword? d.code).map fun keyword => do
    let edit ← insertClosing document d.range.start.line keyword.spelling ending.chars
    return { title := "Insert " ++ keyword.name, diagnostic := d, edits := [edit] }

def quickFixes (text : Text) (diagnostics : List Diagnostic) : Except LineError (List Action) :=
  let document := (lines text).toArray
  let ending := LineEnding.ofText text
  (diagnostics.filterMap (quickFix? document ending)).mapM id

structure FixResult where
  fixed : Text
  applied : List Action
  changed : Bool
  deriving DecidableEq, Repr

/-- Take every offer for the diagnostics of a text. -/
def applyFixes (text : Text) (diagnostics : List Diagnostic) : Except LineError FixResult := do
  let actions ← quickFixes text diagnostics
  let fixed := applyEdits text (actions.flatMap (·.edits))
  return ⟨fixed, actions, fixed != text⟩

/-- Lint a text with the default rules and take every offer. -/
def fix (config : LintConfig) (text : Text) : Except LineError FixResult :=
  applyFixes text (lint config text)

/-- Mend the last missing `ENDFIX` among the diagnostics of a text; `none` if none is missing. -/
def fixLast (text : Text) (diagnostics : List Diagnostic) : Except LineError (Option Text) := do
  match (diagnostics.filter (·.code == Spec.missingEndfix.code)).getLast? with
  | none => return none
  | some last =>
    let actions ← quickFixes text [last]
    return some (applyEdits text (actions.flatMap (·.edits)))

/-- Why a run of fixes is refused or fails. -/
inductive FixError where
  | ambiguousInput
  | otherText
  | lint (cause : LintError)
  | line (cause : LineError)
  deriving DecidableEq, Repr

def FixError.message : FixError → String
  | .ambiguousInput => "Pass either lint or config/context, not both"
  | .otherText => "Provided lint result must come from the same text"
  | .lint cause => cause.message
  | .line cause => cause.message

/-- The diagnostics a run of fixes starts from: those of a finished lint run of the same text, or
else those of a run of its own. -/
def fixDiagnostics (text : Text) (config : Option LintConfig) (script : Option Script)
    (result : Option LintResult) : Except FixError (List Diagnostic) :=
  match result with
  | some result =>
    if config.isSome || script.isSome then .error .ambiguousInput
    else if result.script.text = text then .ok result.diagnostics
    else .error .otherText
  | none =>
    ((runLint text config script none).map (·.diagnostics)).mapError .lint

def runFix (text : Text) (config : Option LintConfig) (script : Option Script)
    (result : Option LintResult) : Except FixError FixResult := do
  let diagnostics ← fixDiagnostics text config script result
  (applyFixes text diagnostics).mapError .line

end CalcLint
