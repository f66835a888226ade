import CalcLint.Rule

/-!
# Linting

A lint run applies the enabled rules in order to one scan of a document and collects what they
report.
-/
namespace CalcLint

/-- What a rule reports on a document under a configuration. -/
def Rule.run (rule : Rule) (config : LintConfig) (script : Script) : List Diagnostic :=
  let options := config.optionsFor rule.id
  if options.enabled then rule.apply options script.tokens (some script) else []

/-- What the rules report on a document, rule after rule. -/
def lintScript (config : LintConfig) (rules : List Rule) (script : Script) : List Diagnostic :=
  rules.flatMap (·.run config script)

/-- What the default rules report on a text. -/
def lint (config : LintConfig) (text : Text) : List Diagnostic :=
  lintScript config defaultRules (Script.ofText text)

structure LintResult where
  script : Script
  diagnostics : List Diagnostic
  deriving DecidableEq, Repr

inductive LintError where
  | otherScript
  | rule (cause : RuleError)
  deriving DecidableEq, Repr

def LintError.message : LintError → String
  | .otherScript => "Provided context must wrap the same text"
  | .rule cause => cause.message

/-- A lint run with everything given from outside: perhaps a configuration, a script that was
scanned before, and a choice of rules. The script is checked before the rules. -/
def runLint (text : Text) (config : Option LintConfig) (script : Option Script)
    (requests : Option (List RuleRequest)) : Except LintError LintResult := do
  let script ← match script with
    | none => pure (Script.ofText text)
    | some script => if script.text = text then pure script else throw .otherScript
  let rules ← match requests with
    | none => pure defaultRules
    | some requests => (acceptRules requests).mapError .rule
  return ⟨script, lintScript (config.getD {}) rules script⟩

end CalcLint
