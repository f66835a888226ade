import CalcLint.Diagnostic
import CalcLint.Value

/-!
# Configuration of the rules

A configuration gives each rule a switch and, if wanted, a severity. It is decoded from a table
whose entries nobody has checked: what cannot be used is left at its default, and a warning says
so. Each entry is decoded on its own.
-/
namespace CalcLint

/-- Switch and severity of one rule; without a severity the rule's own holds. -/
structure RuleOptions where
  enabled : Bool := true
  severity : Option Severity := none
  deriving DecidableEq, Repr

/-- What a configuration held that could not be used. -/
inductive ConfigWarning where
  | notATable (rule : String) (given : Value)
  | badSwitch (rule : String) (given : Value)
  | badSeverity (rule : String) (given : Value)
  | unknownRule (rule : String)
  | badSection (name path : String)
  deriving Repr

def ConfigWarning.message : ConfigWarning → String
  | .notATable rule given =>
    s!"Ignoring configuration for rule `{rule}`: expected a table, got {given.render}"
  | .badSwitch rule given =>
    s!"Ignoring `enabled={given.render}` for rule `{rule}`: expected true/false"
  | .badSeverity rule given =>
    s!"Ignoring severity {given.render} for rule `{rule}`: expected error/warning/info"
  | .unknownRule rule => s!"Ignoring configuration for unknown rule `{rule}`"
  | .badSection name path => s!"Ignoring `{name}` in `{path}`: expected a table"

def decodeSeverity (rule : String) (given : Value) : Option Severity × List ConfigWarning :=
  match given with
  | .text name =>
    match Severity.ofName? name with
    | some severity => (some severity, [])
    | none => (none, [.badSeverity rule given])
  | _ => (none, [.badSeverity rule given])

/-- Decode the switch of an entry; a rule runs unless it is told not to. -/
def decodeSwitch (rule : String) (entries : Table) : Bool × List ConfigWarning :=
  match entries.lookup "enabled" with
  | none => (true, [])
  | some (.bool enabled) => (enabled, [])
  | some given => (true, [.badSwitch rule given])

/-- Decode the severity of an entry; null counts as absent. -/
def decodeSeverityEntry (rule : String) (entries : Table) :
    Option Severity × List ConfigWarning :=
  match entries.lookup "severity" with
  | none => (none, [])
  | some .null => (none, [])
  | some given => decodeSeverity rule given

/-- Decode the entry of one rule: a switch, the name of a severity, or a table of both. -/
def decodeOptions (rule : String) (given : Value) : RuleOptions × List ConfigWarning :=
  match given with
  | .bool enabled => ({ enabled }, [])
  | .text _ =>
    let severity := decodeSeverity rule given
    ({ severity := severity.1 }, severity.2)
  | .table entries =>
    let enabled := decodeSwitch rule entries
    let severity := decodeSeverityEntry rule entries
    ({ enabled := enabled.1, severity := severity.1 }, enabled.2 ++ severity.2)
  | _ => ({}, [.notATable rule given])

/-- The options of the rules that have an entry. -/
structure LintConfig where
  rules : List (String × RuleOptions) := []
  deriving DecidableEq, Repr

namespace LintConfig

def optionsFor (config : LintConfig) (rule : String) : RuleOptions :=
  (config.rules.lookup rule).getD {}

/-- The rules that have an entry, sorted. -/
def present (config : LintConfig) : List String :=
  (config.rules.map (·.1)).mergeSort fun a b => decide (a ≤ b)

/-- Decode the entries of a table for the rules in `known`. -/
def decode (known : List String) : Table → LintConfig × List ConfigWarning
  | [] => ({}, [])
  | (rule, given) :: rest =>
    let later := decode known rest
    if rule ∈ known then
      let options := decodeOptions rule given
      (⟨(rule, options.1) :: later.1.rules⟩, options.2 ++ later.2)
    else (later.1, .unknownRule rule :: later.2)

end LintConfig

end CalcLint
