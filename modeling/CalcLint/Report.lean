import CalcLint.Comma
import CalcLint.Diagnostic
import CalcLint.Text.Quoted
import CalcLint.Token

/-!
# Reports

How tokens, comma issues and diagnostics are written for people and for programs. People count
lines and columns from one.
-/
namespace CalcLint

/-- Fill up with `c` on the left. -/
def padLeft (width : Nat) (c : Char) (s : String) : String :=
  String.ofList (List.replicate (width - s.length) c ++ s.toList)

def padRight (width : Nat) (s : String) : String :=
  String.ofList (s.toList ++ List.replicate (width - s.length) ' ')

/-- Lines, each with a line end. -/
def unlines (ls : List String) : String :=
  String.join (ls.map (· ++ "\n"))

def tokenLine (index : Nat) (t : Token) : String :=
  let number := padLeft 3 '0' (toString index)
  let name := padRight 8 t.kind.name
  let lexeme := String.ofList (quoteText t.lexeme)
  s!"{number} {name} line={t.line} col={t.column} lexeme={lexeme}"

def dumpTokens (tokens : List Token) : String :=
  unlines (tokens.zipIdx.map fun entry => tokenLine entry.2 entry.1)

def commaLineText (i : CommaIssue) : String :=
  s!"- {i.fault.name} line={i.line} cols=[{i.column}, {i.stop})"

/-- A list of comma issues under its heading; nothing if there are none. -/
def dumpCommas (issues : List CommaIssue) : String :=
  if issues.isEmpty then "" else unlines ("\nComma issues:" :: issues.map commaLineText)

def diagnosticLine (path : String) (d : Diagnostic) : String :=
  let line := d.range.start.line + 1
  let column := d.range.start.character + 1
  s!"{path}:{line}:{column}: {d.severity.name} {d.code} {d.message}"

/-- The JSON values that reports are made of. -/
inductive JsonTree where
  | null
  | number (n : Nat)
  | string (s : String)
  | array (items : List JsonTree)
  | object (members : List (String × JsonTree))
  deriving Repr

/-- A UTF-16 unit as a JSON escape. -/
def unitEscape (unit : Nat) : List Char :=
  '\\' :: 'u' :: hexDigits 4 unit

/-- A character inside a JSON string; all but printable ASCII is escaped. -/
def jsonChar (c : Char) : List Char :=
  if c = '"' ∨ c = '\\' then ['\\', c]
  else if c = '\n' then ['\\', 'n']
  else if c = '\r' then ['\\', 'r']
  else if c = '\t' then ['\\', 't']
  else if c = '\x08' then ['\\', 'b']
  else if c = '\x0c' then ['\\', 'f']
  else if ' ' ≤ c ∧ c ≤ '~' then [c]
  else if c.toNat < 0x10000 then unitEscape c.toNat
  else
    let n := c.toNat - 0x10000
    unitEscape (0xD800 + n / 0x400) ++ unitEscape (0xDC00 + n % 0x400)

def jsonString (s : String) : String :=
  String.ofList ('"' :: s.toList.flatMap jsonChar ++ ['"'])

/-- Parts of an array or object, one a line, between its brackets. -/
def bracketed (depth : Nat) (opening closing : String) (parts : List String) : String :=
  let margin (n : Nat) : String := String.ofList ('\n' :: List.replicate (2 * n) ' ')
  if parts.isEmpty then opening ++ closing
  else
    let inner := ("," ++ margin (depth + 1)).intercalate parts
    opening ++ margin (depth + 1) ++ inner ++ margin depth ++ closing

namespace JsonTree

mutual

/-- Write a value that stands `depth` levels deep; each level is indented by two blanks. -/
def pretty (depth : Nat) : JsonTree → String
  | .null => "null"
  | .number n => toString n
  | .string s => jsonString s
  | .array items => bracketed depth "[" "]" (prettyItems (depth + 1) items)
  | .object members => bracketed depth "\x7b" "\x7d" (prettyMembers (depth + 1) members)

def prettyItems (depth : Nat) : List JsonTree → List String
  | [] => []
  | item :: rest => pretty depth item :: prettyItems depth rest

def prettyMembers (depth : Nat) : List (String × JsonTree) → List String
  | [] => []
  | (name, value) :: rest =>
    (jsonString name ++ ": " ++ pretty depth value) :: prettyMembers depth rest

end

def ofOption : Option String → JsonTree
  | none => .null
  | some s => .string s

def ofPosition (p : Position) : JsonTree :=
  .object [("line", .number p.line), ("character", .number p.character)]

/-- A diagnostic of the file at `path`. -/
def ofDiagnostic (path : String) (d : Diagnostic) : JsonTree :=
  .object [
    ("path", .string path),
    ("code", .string d.code),
    ("message", .string d.message),
    ("severity", .string d.severity.name),
    ("rule", ofOption d.rule),
    ("hint", ofOption d.hint),
    ("range", .object [("start", ofPosition d.range.start), ("end", ofPosition d.range.stop)])]

end JsonTree

end CalcLint
