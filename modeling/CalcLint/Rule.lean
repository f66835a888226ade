import CalcLint.Balance
import CalcLint.Comma
import CalcLint.Config

/-!
# Lint rules

Three kinds of rules: blocks are balanced, conditional chains are balanced, and commas are well
placed. A rule has an identifier of its own, so that the same kind may be used more than once, and
a severity that holds unless the options name another.
-/
namespace CalcLint

/-- What a rule checks. -/
inductive RuleKind where
  | blockBalance
  | chainBalance
  | commaPlacement
  deriving DecidableEq, Repr

namespace RuleKind

/-- All kinds of rules, in the order in which they run by default. -/
def all : List RuleKind :=
  [.blockBalance, .chainBalance, .commaPlacement]

/-- The type name by which callers ask for a kind. -/
def typeName : RuleKind → String
  | .blockBalance => "FixEndfixBalanceRule"
  | .chainBalance => "IfEndifBalanceRule"
  | .commaPlacement => "CommaPlacementRule"

/-- The identifier a rule of this kind has by default. -/
def defaultId : RuleKind → String
  | .blockBalance => "fixEndfixBalance"
  | .chainBalance => "ifEndifBalance"
  | .commaPlacement => "commaPlacement"

def category : RuleKind → String
  | .blockBalance => "block"
  | .chainBalance => "conditional"
  | .commaPlacement => "comma"

/-- The severity a rule of this kind has by default. -/
def defaultSeverity : RuleKind → Severity
  | .blockBalance => .error
  | .chainBalance => .error
  | .commaPlacement => .warning

/-- The specifications a kind of rule can report. -/
def specs : RuleKind → List Spec
  | .blockBalance => [.missingEndfix, .unmatchedEndfix]
  | .chainBalance =>
    [.missingEndif, .unmatchedEndif, .unexpectedElseif, .unexpectedElse, .duplicateElse]
  | .commaPlacement => [.trailingComma, .duplicateComma]

def ofTypeName? (name : String) : Option RuleKind :=
  all.find? (·.typeName == name)

end RuleKind

structure Rule where
  kind : RuleKind
  id : String := kind.defaultId
  severity : Severity := kind.defaultSeverity
  deriving DecidableEq, Repr

/-- The rules that run when nobody chooses. -/
def defaultRules : List Rule :=
  RuleKind.all.map fun kind => { kind }

def defaultRuleIds : List String :=
  defaultRules.map (·.id)

/-- A rule asked for from outside: a known one, or something of a type that is no rule. -/
inductive RuleRequest where
  | known (rule : Rule)
  | foreign (typeName : String)
  deriving DecidableEq, Repr

inductive RuleError where
  | unsupported (typeName : String)
  | repeated (id : String)
  deriving DecidableEq, Repr

def RuleError.message : RuleError → String
  | .unsupported typeName =>
    let expected := ", ".intercalate (RuleKind.all.map RuleKind.typeName)
    s!"Unsupported lint rule `{typeName}`; expected one of {expected}."
  | .repeated id => s!"Lint rule `{id}` is registered more than once."

/-- Accept requests one after the other; `seen` holds the identifiers accepted so far. -/
def acceptRulesFrom (seen : List String) : List RuleRequest → Except RuleError (List Rule)
  | [] => .ok []
  | .foreign typeName :: _ => .error (.unsupported typeName)
  | .known rule :: rest =>
    if rule.id ∈ seen then .error (.repeated rule.id)
    else (rule :: ·) <$> acceptRulesFrom (rule.id :: seen) rest

/-- Accept a choice of rules: each of a known kind, no identifier twice. The first offence is
reported. -/
def acceptRules (requests : List RuleRequest) : Except RuleError (List Rule) :=
  acceptRulesFrom [] requests

/-- A document together with its keywords. -/
structure Script where
  text : Text
  tokens : List Token
  deriving DecidableEq, Repr

def Script.ofText (text : Text) : Script :=
  ⟨text, scan text⟩

def CommaFault.spec : CommaFault → Spec
  | .trailing => .trailingComma
  | .double => .duplicateComma

/-- The severity under which a rule reports: an override with an empty name is none. -/
def Rule.severityUnder (rule : Rule) (options : RuleOptions) : Severity :=
  match options.severity with
  | some severity => if severity.name = "" then rule.severity else severity
  | none => rule.severity

/-- What a rule reports on a stream of keywords. Commas are looked for in the document, so without
one that rule reports nothing. -/
def Rule.apply (rule : Rule) (options : RuleOptions) (tokens : List Token)
    (script : Option Script) : List Diagnostic :=
  let severity := some (rule.severityUnder options)
  match rule.kind with
  | .blockBalance => checkPair {} severity (some rule.id) tokens
  | .chainBalance => checkChain severity (some rule.id) tokens
  | .commaPlacement =>
    match script with
    | none => []
    | some script =>
      (commaIssues script.text).map fun issue =>
        issue.fault.spec.report severity (some rule.id) issue.range

end CalcLint
