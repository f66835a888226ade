/-!
# Lexemes of TOML

The smallest parts of a TOML document: blanks, comments, strings and keys. A reader takes the
characters still to be read and gives what it read and what is left, or nothing when the document
is not valid there. Readers of values also say why they fail. Recursive readers take a bound on
their steps, for which the number of characters left is always enough.
-/
namespace CalcLint.Toml

/-- A reader of `α`. -/
abbrev Reader (α : Type) := List Char → Option (α × List Char)

inductive Fault where
  | invalid
  /-- A decimal integer has more digits than are ever read. -/
  | longInteger (digits : Nat)
  deriving DecidableEq, Repr

/-- A reader of `α` that says why it fails. -/
abbrev ValueReader (α : Type) := List Char → Except Fault (α × List Char)

/-- What was read, or else the document is not valid. -/
def orInvalid {α : Type} : Option α → Except Fault α
  | some a => .ok a
  | none => .error .invalid

/-- Blanks inside a line. -/
def isSpace (c : Char) : Bool :=
  c == ' ' || c == '\t'

def isSpaceOrNewline (c : Char) : Bool :=
  isSpace c || c == '\n'

/-- Controls other than the tab stand nowhere in a line. -/
def isForbidden (c : Char) : Bool :=
  (c.toNat < 0x20 || c.toNat == 0x7F) && c != '\t'

def skipSpaces (source : List Char) : List Char :=
  source.dropWhile isSpace

/-- Skip a comment, if one begins here, up to the end of its line. -/
def skipComment (source : List Char) : Option (List Char) :=
  match source with
  | '#' :: rest =>
    if (rest.takeWhile (· != '\n')).any isForbidden then none
    else some (rest.dropWhile (· != '\n'))
  | _ => some source

def skipFiller (inComment : Bool) : List Char → Option (List Char)
  | [] => some []
  | c :: rest =>
    if inComment then
      if c = '\n' then skipFiller false rest
      else if isForbidden c then none
      else skipFiller true rest
    else if isSpaceOrNewline c then skipFiller false rest
    else if c = '#' then skipFiller true rest
    else some (c :: rest)

def hexValue? (c : Char) : Option Nat :=
  if '0' ≤ c ∧ c ≤ '9' then some (c.toNat - '0'.toNat)
  else if 'a' ≤ c ∧ c ≤ 'f' then some (c.toNat - 'a'.toNat + 10)
  else if 'A' ≤ c ∧ c ≤ 'F' then some (c.toNat - 'A'.toNat + 10)
  else none

/-- A character given by `width` hexadecimal digits. -/
def hexChar (width : Nat) : Reader Char := fun source => do
  let digits := source.take width
  if digits.length < width then none
  let values ← digits.mapM hexValue?
  let code := values.foldl (fun n d => 16 * n + d) 0
  if code.isValidChar then some (Char.ofNat code, source.drop width) else none

/-- The escape behind a backslash. A line end behind the backslash, perhaps after blanks, is
swallowed with all blanks that follow it, if the string may run over lines. -/
def escape (multiline : Bool) : Reader (List Char) := fun source =>
  match source with
  | [] => none
  | c :: rest =>
    if multiline && isSpaceOrNewline c then
      let rest := if c = '\n' then c :: rest else skipSpaces rest
      match rest with
      | [] => some ([], [])
      | d :: below => if d = '\n' then some ([], below.dropWhile isSpaceOrNewline) else none
    else
      match c with
      | 'b' => some (['\x08'], rest)
      | 't' => some (['\t'], rest)
      | 'n' => some (['\n'], rest)
      | 'f' => some (['\x0c'], rest)
      | 'r' => some (['\r'], rest)
      | '"' => some (['"'], rest)
      | '\\' => some (['\\'], rest)
      | 'u' => (hexChar 4 rest).map fun r => ([r.1], r.2)
      | 'U' => (hexChar 8 rest).map fun r => ([r.1], r.2)
      | _ => none

/-- The inside of a basic string and its closing mark. -/
def basicBody (multiline : Bool) : Nat → Reader (List Char)
  | 0, _ => none
  | fuel + 1, source =>
    match source with
    | [] => none
    | '"' :: rest =>
      if multiline then
        match rest with
        | '"' :: '"' :: after => some ([], after)
        | _ => (basicBody multiline fuel rest).map fun r => ('"' :: r.1, r.2)
      else some ([], rest)
    | '\\' :: rest => do
      let escaped ← escape multiline rest
      let r ← basicBody multiline fuel escaped.2
      return (escaped.1 ++ r.1, r.2)
    | c :: rest =>
      if isForbidden c && !(multiline && c == '\n') then none
      else (basicBody multiline fuel rest).map fun r => (c :: r.1, r.2)

/-- The inside of a literal string and its closing mark. -/
def literalBody (multiline : Bool) : List Char → Option (List Char × List Char)
  | [] => none
  | c :: rest =>
    if c = '\'' then
      if multiline then
        match rest with
        | '\'' :: '\'' :: after => some ([], after)
        | _ => (literalBody multiline rest).map fun r => (c :: r.1, r.2)
      else some ([], rest)
    else if isForbidden c && !(multiline && c == '\n') then none
    else (literalBody multiline rest).map fun r => (c :: r.1, r.2)

/-- Up to two more quotes in front of the closing mark belong to a string over lines. -/
def extraQuotes (quote : Char) (body rest : List Char) : List Char × List Char :=
  let extra := (rest.take 2).takeWhile (· == quote)
  (body ++ extra, rest.drop extra.length)

/-- A line end directly behind the opening mark does not count. -/
def dropFirstNewline : List Char → List Char
  | '\n' :: rest => rest
  | source => source

def oneLineString : Reader String := fun source =>
  match source with
  | '"' :: rest =>
    (basicBody false (rest.length + 1) rest).map fun r => (String.ofList r.1, r.2)
  | '\'' :: rest => (literalBody false rest).map fun r => (String.ofList r.1, r.2)
  | _ => none

/-- A string, in one line or over several. -/
def string : Reader String := fun source =>
  match source with
  | '"' :: '"' :: '"' :: rest => do
    let rest := dropFirstNewline rest
    let r ← basicBody true (rest.length + 1) rest
    let r := extraQuotes '"' r.1 r.2
    return (String.ofList r.1, r.2)
  | '\'' :: '\'' :: '\'' :: rest => do
    let r ← literalBody true (dropFirstNewline rest)
    let r := extraQuotes '\'' r.1 r.2
    return (String.ofList r.1, r.2)
  | _ => oneLineString source

/-- The path of a value through nested tables. -/
abbrev Key := List String

/-- Letters, digits, dashes and underscores need no quotes in a key. -/
def isBareKeyChar (c : Char) : Bool :=
  c.isAlphanum || c == '-' || c == '_'

def keyPart : Reader String := fun source =>
  match source with
  | [] => none
  | c :: _ =>
    if isBareKeyChar c then
      some (String.ofList (source.takeWhile isBareKeyChar), source.dropWhile isBareKeyChar)
    else oneLineString source

/-- A key of one or more parts with dots between them. -/
def key : Nat → Reader Key
  | 0, _ => none
  | fuel + 1, source => do
    let part ← keyPart source
    match skipSpaces part.2 with
    | '.' :: rest =>
      let more ← key fuel (skipSpaces rest)
      return (part.1 :: more.1, more.2)
    | rest => return ([part.1], rest)

end CalcLint.Toml
