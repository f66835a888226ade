import CalcLint.FileTree
import CalcLint.Host
import CalcLint.Rule
import CalcLint.Toml.Document

/-!
# Configuration files

Rule options are kept in a TOML file, in the table `rules`. In a file called `pyproject.toml` that
table is looked for below `tool.essbaselint`. A section that is no table is ignored with a warning.
-/
namespace CalcLint

/-- Why there is no configuration to use. -/
inductive ConfigError where
  | unreadable (path : Path) (fault : FileFault)
  | invalid (path : Path) (reason : String)
  deriving DecidableEq, Repr

def ConfigError.message : ConfigError → String
  | .unreadable path fault => s!"Cannot read config file `{path.render}`: {fault.message path}"
  | .invalid path reason => s!"Invalid TOML in config file `{path.render}`: {reason}"

/-- Why loading a configuration fails: an error of its own, a path that holds a null character, a
file that is not UTF-8, or an integer that is never read. -/
inductive LoadError where
  | config (cause : ConfigError)
  | nullInPath
  | undecodable (cause : DecodeError)
  | longInteger (digits : Nat)
  deriving DecidableEq, Repr

def longIntegerMessage (digits : Nat) : String :=
  s!"Exceeds the limit ({maxNumeralDigits} digits) for integer string conversion: " ++
    s!"value has {digits} digits; use sys.set_int_max_str_digits() to increase the limit"

def LoadError.message : LoadError → String
  | .config cause => cause.message
  | .nullInPath => nullInPathMessage
  | .undecodable cause => cause.message
  | .longInteger digits => longIntegerMessage digits

/-- The table under a key; an absent one is empty. `label` is how a warning calls it. -/
def sectionOf (path : Path) (label key : String) (t : Table) : Except ConfigWarning Table :=
  match t.lookup key with
  | none => .ok []
  | some (.table entries) => .ok entries
  | some _ => .error (.badSection label path.render)

def rulesSection (path : Path) (document : Table) : Except ConfigWarning Table := do
  if path.name = "pyproject.toml" then
    let tool ← sectionOf path "tool" "tool" document
    let own ← sectionOf path "tool.essbaselint" "essbaselint" tool
    sectionOf path "rules" "rules" own
  else sectionOf path "rules" "rules" document

/-- The configuration in a document, with the warnings it causes. -/
def configOfDocument (path : Path) (document : Table) : LintConfig × List ConfigWarning :=
  match rulesSection path document with
  | .ok rules => LintConfig.decode defaultRuleIds rules
  | .error warning => ({}, [warning])

/-- Load a configuration file. What is wrong with a document is said in the host's words. -/
def loadConfig (host : Host) (disk : Disk) (path : Path) :
    Except LoadError (LintConfig × List ConfigWarning) :=
  match readFrom disk path with
  | .error .nullInPath => .error .nullInPath
  | .error (.fault fault) => .error (.config (.unreadable path fault))
  | .ok bytes =>
    match decodeUtf8 bytes with
    | .error cause => .error (.undecodable cause)
    | .ok text =>
      match Toml.readDocument text with
      | .error .invalid => .error (.config (.invalid path (host.complaint text)))
      | .error (.longInteger digits) => .error (.longInteger digits)
      | .ok document => .ok (configOfDocument path document)

end CalcLint
