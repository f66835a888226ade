import CalcLint.Arguments
import CalcLint.ConfigFile
import CalcLint.Journal
import CalcLint.Report

/-!
# The command line

Three commands: `check` reports diagnostics, `fix` inserts missing closers, `tokens` lists what the
scanner XX
-/
namespace CalcLint

inductive ReportFormat where
  | text
  | json
  deriving DecidableEq, Repr

inductive ReportOrder where
  | byRule
  | byPosition
  deriving DecidableEq, Repr

/-- A command with its own arguments. -/
inductive Command where
  | check (files : List String) (format : ReportFormat) (order : ReportOrder)
  | fix (file : String) (last write : Bool)
  | tokens (file : String)
  deriving DecidableEq, Repr

/-- A command with the arguments all commands share. -/
structure Invocation where
  verbose : Bool := false
  config : Setting := .absent
  encoding : Setting := .absent
  command : Command
  deriving DecidableEq, Repr

def helpOption : OptionSpec := ⟨["-h", "--help"], .stop⟩

def versionOption : OptionSpec := ⟨["--version"], .stop⟩

def verboseOption : OptionSpec := ⟨["-v", "--verbose"], .flag⟩

def configOption : OptionSpec := ⟨["--config"], .value .any⟩

def encodingOption : OptionSpec := ⟨["--encoding"], .value .any⟩

def formatOption : OptionSpec := ⟨["--format"], .value (.choice ["text", "json"])⟩

def sortOption : OptionSpec := ⟨["--sort"], .value (.choice ["rule", "position"])⟩

def lastOption : OptionSpec := ⟨["--last"], .flag⟩

def writeOption : OptionSpec := ⟨["-w", "--write"], .flag⟩

/-- The arguments all commands share; the command and its own arguments follow them. -/
def sharedGrammar : Grammar where
  options := [helpOption, versionOption, verboseOption, configOption, encodingOption]
  operand := "command"
  shape := .rest

def checkGrammar : Grammar where
  options := [helpOption, formatOption, sortOption]
  operand := "files"
  shape := .many

def fixGrammar : Grammar where
  options := [helpOption, lastOption, writeOption]
  operand := "file"
  shape := .one

def tokensGrammar : Grammar where
  options := [helpOption]
  operand := "file"
  shape := .one

def commandNames : List String :=
  ["check", "fix", "tokens"]

/-- Read a command by its name and its own arguments; also gives what is left over. -/
def parseCommand (name : String) (arguments : List String) :
    Except Halt (Command × List String) := do
  match name with
  | "check" =>
    let p ← checkGrammar.parse arguments
    let format := if p.setting "--format" = .value "json" then .json else .text
    let order := if p.setting "--sort" = .value "position" then .byPosition else .byRule
    return (.check (p.operands.getD []) format order, p.extras)
  | "fix" =>
    let p ← fixGrammar.parse arguments
    let file := (p.operands.getD []).headD ""
    return (.fix file (p.has "--last") (p.has "--write"), p.extras)
  | "tokens" =>
    let p ← tokensGrammar.parse arguments
    return (.tokens ((p.operands.getD []).headD ""), p.extras)
  | _ =>
    let complaint := ((ValueKind.choice commandNames).complaint? name).getD ""
    throw (.usage (.badValue "command" complaint))

/-- Read an invocation. An argument left over before the command is reported before those left over
behind it. -/
def Invocation.parse (arguments : List String) : Except Halt Invocation := do
  let shared ← sharedGrammar.parse arguments
  match shared.operands.getD [] with
  | [] => throw (.usage (.missing sharedGrammar.operand))
  | name :: own =>
    let (command, extras) ← parseCommand name own
    refuseExtras (shared.extras ++ extras)
    return {
      verbose := shared.has "--verbose"
      config := shared.setting "--config"
      encoding := shared.setting "--encoding"
      command }

/-- A failure that a run does not report but passes on to its caller. -/
inductive Escape where
  | emptyConfig
  | emptyEncoding
  | nullInPath
  | nullInEncoding
  | noCodec (name : String) (cause : CodecMissing)
  | unreadable (reason : String)
  | unwritable (reason : String)
  | longInteger (digits : Nat)
  | line (cause : LineError)
  deriving DecidableEq, Repr

def Escape.message : Escape → String
  | .emptyConfig => "expected str, bytes or os.PathLike object, not list"
  | .emptyEncoding => "open() argument 'encoding' must be str or None, not list"
  | .nullInPath => nullInPathMessage
  | .nullInEncoding => "embedded null character"
  | .noCodec name cause => cause.message name
  | .unreadable reason => reason
  | .unwritable reason => reason
  | .longInteger digits => longIntegerMessage digits
  | .line cause => cause.message

inductive Failure where
  | config (cause : ConfigError)
  | file (path : Path) (fault : FileFault)
  | undecodable (cause : DecodeError)
  | escape (cause : Escape)
  deriving DecidableEq, Repr

def Failure.ofLoadError : LoadError → Failure
  | .config cause => .config cause
  | .nullInPath => .escape .nullInPath
  | .undecodable cause => .undecodable cause
  | .longInteger digits => .escape (.longInteger digits)

def Failure.ofReadError (path : Path) : ReadError → Failure
  | .fault fault => .file path fault
  | .nullInPath => .escape .nullInPath

def Failure.ofCodecFault : CodecFault → Failure
  | .undecodable cause => .undecodable cause
  | .refused reason => .escape (.unreadable reason)

/-- What a command prints and does: its output, its notes and plain messages on the error channel,
files to write, and how it ends. -/
structure CommandResult where
  output : String := ""
  notes : List Note := []
  messages : List String := []
  writes : List (Path × Bytes) := []
  ending : Except Failure Nat := .ok 0

/-- The name of the encoding in use: that of UTF-8 unless another is set. -/
def encodingName (encoding : Setting) : Except Escape String :=
  match encoding with
  | .absent => .ok "utf-8"
  | .empty => .error .emptyEncoding
  | .value name => if name.toList.contains '\x00' then .error .nullInEncoding else .ok name

/-- The codec of a name, or the failure to find one. -/
def Host.codecOf (host : Host) (name : String) : Except Escape Codec :=
  (host.codec name).mapError (.noCodec name)

/-- Read a script. What is set as encoding is checked before the file is opened, and looked up
before it is read. -/
def readScript (host : Host) (disk : Disk) (encoding : Setting) (path : Path) :
    Except Failure Text := do
  let name ← (encodingName encoding).mapError .escape
  let opened ← (openFrom disk path).mapError (.ofReadError path)
  let codec ← (host.codecOf name).mapError .escape
  let bytes ← opened.mapError (.file path)
  (codec.decode bytes).mapError .ofCodecFault

def scriptBytes (host : Host) (encoding : Setting) (text : Text) : Except Escape Bytes := do
  let name ← encodingName encoding
  let codec ← host.codecOf name
  (codec.encode text).mapError .unwritable

structure FileReport where
  path : String
  script : Script
  diagnostics : List Diagnostic
  deriving DecidableEq, Repr

/-- Lint files up to the first that cannot be read. -/
def lintFiles (host : Host) (disk : Disk) (encoding : Setting) (config : LintConfig) :
    List String → List FileReport × Option Failure
  | [] => ([], none)
  | path :: rest =>
    match readScript host disk encoding (Path.ofString path) with
    | .error failure => ([], some failure)
    | .ok text =>
      let later := lintFiles host disk encoding config rest
      (⟨path, Script.ofText text, lint config text⟩ :: later.1, later.2)

def FileReport.ordered (r : FileReport) : ReportOrder → List Diagnostic
  | .byRule => r.diagnostics
  | .byPosition => sortDiagnostics r.diagnostics

def textReport (order : ReportOrder) (reports : List FileReport) : String :=
  unlines (reports.flatMap fun r => (r.ordered order).map (diagnosticLine r.path))

def jsonReport (order : ReportOrder) (reports : List FileReport) : String :=
  let records := reports.flatMap fun r => (r.ordered order).map (JsonTree.ofDiagnostic r.path)
  unlines [(JsonTree.array records).pretty 0]

/-- Report the diagnostics of files. What was found before a file failed is printed as text; JSON is
printed only as a whole. -/
def checkCommand (host : Host) (disk : Disk) (encoding : Setting) (config : LintConfig)
    (files : List String) (format : ReportFormat) (order : ReportOrder) : CommandResult :=
  let (reports, failure) := lintFiles host disk encoding config files
  let output := match format, failure with
    | .text, _ => textReport order reports
    | .json, none => jsonReport order reports
    | .json, some _ => ""
  let exit := if reports.any (hasErrors ·.diagnostics) then 1 else 0
  { output
    notes := reports.flatMap fun r => lintNotes config r.script
    ending := failure.elim (.ok exit) .error }

structure FixOutcome where
  fixed : Text
  applied : Nat
  notes : List Note := []
  messages : List String := []
  deriving DecidableEq, Repr

/-- Mend every missing closer, or only the last missing `ENDFIX`. -/
def fixText (config : LintConfig) (last : Bool) (text : Text) : Except LineError FixOutcome := do
  let notes := lintNotes config (Script.ofText text)
  if last then
    match ← fixLast text (lint config text) with
    | none => return ⟨text, 0, notes ++ nothingMissingNotes, [nothingMissing]⟩
    | some fixed => return ⟨fixed, if fixed = text then 0 else 1, notes, []⟩
  else
    let result ← CalcLint.fix config text
    let count := result.applied.length
    return ⟨result.fixed, count, notes ++ fixNotes count, []⟩

/-- Mend a file, in place or on the output. A file that needs no fix is not written. Opening a file
for writing empties it, and empty it stays when its new text cannot be stored; no other fault of
writing is in the model. -/
def fixCommand (host : Host) (disk : Disk) (encoding : Setting) (config : LintConfig)
    (file : String) (last write : Bool) : CommandResult :=
  let path := Path.ofString file
  match readScript host disk encoding path with
  | .error failure => { ending := .error failure }
  | .ok text =>
    match fixText config last text with
    | .error cause => { ending := .error (.escape (.line cause)) }
    | .ok r =>
      let result : CommandResult := { notes := r.notes, messages := r.messages }
      let applied := s!"Applied {r.applied} fix(es) to {path.render}\n"
      if !write then { result with output := String.ofList r.fixed }
      else if r.fixed = text then { result with output := applied }
      else
        match scriptBytes host encoding r.fixed with
        | .error cause =>
          { result with writes := [(path, [])], ending := .error (.escape cause) }
        | .ok bytes => { result with output := applied, writes := [(path, bytes)] }

/-- List the tokens and comma issues of a file. -/
def tokensCommand (host : Host) (disk : Disk) (encoding : Setting) (file : String) :
    CommandResult :=
  match readScript host disk encoding (Path.ofString file) with
  | .error failure => { ending := .error failure }
  | .ok text =>
    let script := Script.ofText text
    { output := dumpTokens script.tokens ++ dumpCommas (commaIssues text)
      notes := scanNotes script ++ commaNotes script }

def Command.run (host : Host) (disk : Disk) (encoding : Setting) (config : LintConfig) :
    Command → CommandResult
  | .check files format order => checkCommand host disk encoding config files format order
  | .fix file last write => fixCommand host disk encoding config file last write
  | .tokens file => tokensCommand host disk encoding file

/-- The configuration in use, with the warnings it causes. -/
def loadSetting (host : Host) (disk : Disk) (config : Setting) :
    Except Failure (LintConfig × List ConfigWarning) :=
  match config with
  | .absent => .ok ({}, [])
  | .empty => .error (.escape .emptyConfig)
  | .value path => (loadConfig host disk (Path.ofString path)).mapError .ofLoadError

/-- Run an invocation. The configuration is loaded before any script is read. -/
def Invocation.run (host : Host) (disk : Disk) (invocation : Invocation) : CommandResult :=
  match loadSetting host disk invocation.config with
  | .error failure => { ending := .error failure }
  | .ok (config, warnings) =>
    let result := invocation.command.run host disk invocation.encoding config
    { result with notes := configNotes warnings ++ result.notes }

/-- What the world sees of a run. -/
structure Outcome where
  exit : Nat
  stdout : String := ""
  stderr : String := ""
  writes : List (Path × Bytes) := []
  deriving DecidableEq, Repr

/-- How a report on a text that cannot be read shows the encoding. -/
def shownEncoding : Setting → String
  | .absent => "utf-8"
  | .empty => "[]"
  | .value name => name

/-- The report on a failure, unless it is passed on. -/
def Failure.report (encoding : Setting) : Failure → Except Escape String
  | .config cause => .ok s!"error: {cause.message}"
  | .file path fault => .ok s!"error: {fault.message path}"
  | .undecodable cause =>
    .ok s!"error: cannot decode input as {shownEncoding encoding}: {cause.message}"
  | .escape cause => .error cause

def version : String := "essbaselint 0.1.0"

def helpText : String :=
  unlines [
    "usage: essbaselint [-h] [--version] [-v] [--config FILE] [--encoding NAME] COMMAND ...",
    "",
    "commands:",
    "  check FILE... [--format text|json] [--sort rule|position]   report diagnostics",
    "  fix FILE [--last] [-w]                                      insert missing ENDFIX/ENDIF",
    "  tokens FILE                                                 list tokens and comma issues"]

/-- What the world sees when the arguments end a run. -/
def Halt.outcome : Halt → Outcome
  | .usage error => { exit := 2, stderr := s!"usage: error: {error.message}\n" }
  | .stop option =>
    { exit := 0, stdout := if option = versionOption.key then version ++ "\n" else helpText }

/-- What the world sees of an invocation. -/
def Invocation.outcome (host : Host) (disk : Disk) (invocation : Invocation) :
    Except Escape Outcome :=
  let result := invocation.run host disk
  let shown := result.notes.filter fun n => invocation.verbose || n.level = .warning
  let log := unlines (shown.map Note.render ++ result.messages)
  match result.ending with
  | .ok exit => .ok ⟨exit, result.output, log, result.writes⟩
  | .error failure =>
    (failure.report invocation.encoding).map fun line =>
      ⟨2, result.output, log ++ line ++ "\n", result.writes⟩

/-- Run the program with the given arguments on the given files. -/
def run (host : Host) (disk : Disk) (arguments : List String) : Except Escape Outcome :=
  match Invocation.parse arguments with
  | .error halt => .ok halt.outcome
  | .ok invocation => invocation.outcome host disk

/-- What a run of the program writes, also when its failure is passed on. -/
def writesOf (host : Host) (disk : Disk) (arguments : List String) : List (Path × Bytes) :=
  match Invocation.parse arguments with
  | .error _ => []
  | .ok invocation => (invocation.run host disk).writes

/-- The files after a run of the program on them. -/
def FileTree.after (tree : FileTree) (host : Host) (arguments : List String) : FileTree :=
  tree.writeAll (writesOf host tree.read arguments)

end CalcLint
