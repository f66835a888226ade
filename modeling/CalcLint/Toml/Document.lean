import CalcLint.Toml.Moment

/-!
# TOML documents

A document is a sequence of key-value pairs and table headers, one a line. No value is ever
overwritten: a table can be opened by a header once, what dotted keys made cannot be reopened in
another section, and arrays and inline tables are closed for good. Dates and times are values like
any other.
-/
namespace CalcLint.Toml

def replaceEntry (k : String) (v : Value) (t : Table) : Table :=
  t.map fun entry => if entry.1 = k then (k, v) else entry

/-- Change the table at the end of a path, making the tables on the way that do not exist. The path
leads through the last table of an array if `throughArrays` allows it. -/
def modifyNest (throughArrays : Bool) (change : Table → Option Table) :
    Key → Table → Option Table
  | [], t => change t
  | k :: path, t =>
    match t.lookup k with
    | none => (modifyNest throughArrays change path []).map fun sub => t ++ [(k, .table sub)]
    | some (.table sub) =>
      (modifyNest throughArrays change path sub).map fun sub => replaceEntry k (.table sub) t
    | some (.list items) =>
      if throughArrays then
        match items.getLast? with
        | some (.table sub) =>
          (modifyNest throughArrays change path sub).map fun sub =>
            replaceEntry k (.list (items.dropLast ++ [.table sub])) t
        | _ => none
      else none
    | some _ => none

/-- Add an entry for a key that has none. -/
def addEntry (k : String) (v : Value) (t : Table) : Option Table :=
  if (t.lookup k).isSome then none else some (t ++ [(k, v)])

/-- Add an empty table to the array at a key, making the array if there is none. -/
def appendTable (k : String) (t : Table) : Option Table :=
  match t.lookup k with
  | none => some (t ++ [(k, .list [.table []])])
  | some (.list items) => some (replaceEntry k (.list (items ++ [.table []])) t)
  | some _ => none

/-- Whether some path in `closed` leads to `k` or past it. -/
def isClosed (closed : List Key) (k : Key) : Bool :=
  closed.any (·.isPrefixOf k)

/-- Arrays and inline tables cannot be changed once they are written. -/
def closes : Value → Bool
  | .list _ => true
  | .table _ => true
  | _ => false

/-- An inline table while it is read, with the keys in it that are closed. -/
structure Inline where
  entries : Table := []
  closed : List Key := []

def Inline.add (inline : Inline) (path : Key) (v : Value) : Option Inline := do
  if isClosed inline.closed path then none
  let last ← path.getLast?
  let entries ← modifyNest false (addEntry last v) path.dropLast inline.entries
  return ⟨entries, if closes v then path :: inline.closed else inline.closed⟩

/-- A string as a value. -/
def stringValue : ValueReader Value := fun source => do
  let r ← orInvalid (string source)
  return (.text r.1, r.2)

mutual

def value : Nat → ValueReader Value
  | 0, _ => .error .invalid
  | fuel + 1, source =>
    match source with
    | '"' :: _ => stringValue source
    | '\'' :: _ => stringValue source
    | 't' :: 'r' :: 'u' :: 'e' :: rest => .ok (.bool true, rest)
    | 'f' :: 'a' :: 'l' :: 's' :: 'e' :: rest => .ok (.bool false, rest)
    | '[' :: rest => do
      let r ← items fuel (← orInvalid (skipFiller false rest))
      return (.list r.1, r.2)
    | '{' :: rest =>
      match skipSpaces rest with
      | '}' :: rest => .ok (.table [], rest)
      | rest => do
        let r ← pairs fuel {} rest
        return (.table r.1, r.2)
    | _ => scalar source

/-- The items of an array up to its closing bracket; a comma may stand behind the last one. -/
def items : Nat → ValueReader (List Value)
  | 0, _ => .error .invalid
  | fuel + 1, source =>
    match source with
    | ']' :: rest => .ok ([], rest)
    | _ => do
      let item ← value fuel source
      match ← orInvalid (skipFiller false item.2) with
      | ']' :: rest => return ([item.1], rest)
      | ',' :: rest =>
        let more ← items fuel (← orInvalid (skipFiller false rest))
        return (item.1 :: more.1, more.2)
      | _ => .error .invalid

/-- The pairs of an inline table up to its closing brace. -/
def pairs : Nat → Inline → ValueReader Table
  | 0, _, _ => .error .invalid
  | fuel + 1, inline, source => do
    let pair ← keyValue fuel source
    let inline ← orInvalid (inline.add pair.1.1 pair.1.2)
    match skipSpaces pair.2 with
    | '}' :: rest => return (inline.entries, rest)
    | ',' :: rest => pairs fuel inline (skipSpaces rest)
    | _ => .error .invalid

/-- A key, an equals sign and a value. -/
def keyValue : Nat → ValueReader (Key × Value)
  | 0, _ => .error .invalid
  | fuel + 1, source => do
    let path ← orInvalid (key (source.length + 1) source)
    match path.2 with
    | '=' :: rest =>
      let v ← value fuel (skipSpaces rest)
      return ((path.1, v.1), v.2)
    | _ => .error .invalid

end

/-- A document while it is read: its tables, the path of the current section, and what may no
longer be opened or changed. -/
structure Draft where
  root : Table := []
  current : Key := []
  /-- Tables that no header may open and no dotted key may extend any more. -/
  declared : List Key := []
  /-- Arrays and inline tables, with everything below them. -/
  closed : List Key := []
  /-- Tables made by dotted keys of the current section, declared when the section ends. -/
  dotted : List Key := []

namespace Draft

def endSection (d : Draft) : Draft :=
  { d with declared := d.dotted ++ d.declared, dotted := [] }

/-- Open a table by a header. -/
def openTable (d : Draft) (path : Key) : Option Draft := do
  if path ∈ d.declared || isClosed d.closed path then none
  let root ← modifyNest true some path d.root
  return { d with root, current := path, declared := path :: d.declared }

/-- Open the next table of an array by a header. What was declared below the array before belongs
to its earlier tables. -/
def openArrayTable (d : Draft) (path : Key) : Option Draft := do
  if isClosed d.closed path then none
  let last ← path.getLast?
  let root ← modifyNest true (appendTable last) path.dropLast d.root
  let below (k : Key) : Bool := path.isPrefixOf k
  return { d with
    root
    current := path
    declared := path :: d.declared.filter (!below ·)
    closed := d.closed.filter (!below ·) }

/-- The tables on the way of a dotted key below a section. -/
def steps (header path : Key) : List Key :=
  (List.range (path.length - 1)).map fun i => header ++ path.take (i + 1)

def addPair (d : Draft) (path : Key) (v : Value) : Option Draft := do
  let way := steps d.current path
  if way.any (· ∈ d.declared) then none
  let nest := d.current ++ path.dropLast
  if isClosed d.closed nest then none
  let last ← path.getLast?
  let root ← modifyNest true (addEntry last v) nest d.root
  return { d with
    root
    dotted := way ++ d.dotted
    closed := if closes v then (d.current ++ path) :: d.closed else d.closed }

end Draft

/-- A table header; two brackets open the next table of an array. -/
def header (d : Draft) (source : List Char) : Option (Draft × List Char) :=
  match source with
  | '[' :: '[' :: rest => do
    let path ← key (rest.length + 1) (skipSpaces rest)
    let d ← d.endSection.openArrayTable path.1
    match path.2 with
    | ']' :: ']' :: rest => return (d, rest)
    | _ => none
  | '[' :: rest => do
    let path ← key (rest.length + 1) (skipSpaces rest)
    let d ← d.endSection.openTable path.1
    match path.2 with
    | ']' :: rest => return (d, rest)
    | _ => none
  | _ => none

/-- One statement: nothing, a header or a pair. -/
def statement (d : Draft) (source : List Char) : Except Fault (Draft × List Char) :=
  match source with
  | [] => .ok (d, [])
  | c :: _ =>
    if c = '\n' ∨ c = '#' then .ok (d, source)
    else if c = '[' then orInvalid (header d source)
    else do
      let pair ← keyValue (2 * source.length + 2) source
      let d ← orInvalid (d.addPair pair.1.1 pair.1.2)
      return (d, pair.2)

/-- The statements of a document, one a line. -/
def statements : Nat → Draft → List Char → Except Fault Table
  | 0, _, _ => .error .invalid
  | fuel + 1, d, source => do
    let r ← statement d (skipSpaces source)
    match ← orInvalid (skipComment (skipSpaces r.2)) with
    | [] => return r.1.root
    | '\n' :: rest => statements fuel r.1 rest
    | _ => .error .invalid

/-- A carriage return in front of a line feed does not count. -/
def dropReturns : List Char → List Char
  | [] => []
  | [c] => [c]
  | c :: d :: rest =>
    if c = '\r' ∧ d = '\n' then dropReturns (d :: rest) else c :: dropReturns (d :: rest)

def readDocument (source : List Char) : Except Fault Table :=
  let source := dropReturns source
  statements (source.length + 1) {} source

end CalcLint.Toml
