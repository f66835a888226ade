import CalcLint.Fix

/-!
# The journal of a run

What the parts of the linter note about their work. Warnings always show; the rest only when asked
for.
-/
namespace CalcLint

/-- How much a note matters. -/
inductive Level where
  | debug
  | info
  | warning
  deriving DecidableEq, Repr

def Level.name : Level → String
  | .debug => "DEBUG"
  | .info => "INFO"
  | .warning => "WARNING"

/-- A note and the part of the linter that made it. -/
structure Note where
  level : Level
  source : String
  message : String
  deriving DecidableEq, Repr

def Note.render (n : Note) : String :=
  s!"{n.level.name} {n.source}: {n.message}"

def scanNotes (script : Script) : List Note :=
  let source := "essbaselint.lexer.scanner"
  let count := script.tokens.length
  let opened :=
    if endsInComment script.text then
      [⟨.debug, source, "Block comment left open at end of text"⟩]
    else []
  opened ++ [⟨.debug, source, s!"Scanned {count} structural tokens"⟩]

def commaNotes (script : Script) : List Note :=
  let count := (commaIssues script.text).length
  [⟨.debug, "essbaselint.lexer.commas", s!"Found {count} comma issues"⟩]

def ruleNotes (config : LintConfig) (script : Script) (rule : Rule) : List Note :=
  let source := "essbaselint.lint.runner"
  if (config.optionsFor rule.id).enabled then
    let count := (rule.run config script).length
    (if rule.kind = .commaPlacement then commaNotes script else []) ++
      [⟨.debug, source, s!"Rule {rule.id} produced {count} diagnostics"⟩]
  else [⟨.debug, source, s!"Skipping disabled rule {rule.id}"⟩]

/-- What is noted when a document is linted with the default rules. -/
def lintNotes (config : LintConfig) (script : Script) : List Note :=
  scanNotes script ++ defaultRules.flatMap (ruleNotes config script)

def fixNotes (count : Nat) : List Note :=
  [⟨.debug, "essbaselint.fixes.runner", s!"Applied {count} quick fixes"⟩]

/-- Said when the last missing `ENDFIX` is to be mended and none is missing. -/
def nothingMissing : String := "No missing ENDFIX found."

def nothingMissingNotes : List Note :=
  [⟨.info, "essbaselint.fixes.quick_fix", nothingMissing⟩]

def configNotes (warnings : List ConfigWarning) : List Note :=
  warnings.map fun w => ⟨.warning, "essbaselint.lint.options", w.message⟩

end CalcLint
