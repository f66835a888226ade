import CalcLint.CommandLine

/-!
# Linting a tree of scripts

A benchmark lints every script below a directory. Which files it takes, how it reads them and how
many diagnostics they have is defined here; how long that takes is for the caller to measure.
Reading never fails: bytes that are no UTF-8 become replacement characters, and every line ending
becomes a line feed.
-/
namespace CalcLint

/-- Whether a file is a script by its name. -/
def isScriptName (name : String) : Bool :=
  (Path.suffixOf name).toList.map Char.toLower == ".csc".toList

/-- Order of paths: component by component. -/
def componentsLe : List String → List String → Bool
  | [], _ => true
  | _ :: _, [] => false
  | a :: as, b :: bs => if a = b then componentsLe as bs else decide (a < b)

/-- Carriage returns, with or without a line feed behind them, become line feeds. -/
def normalizeNewlines : Text → Text
  | [] => []
  | [c] => [if c = '\r' then '\n' else c]
  | c :: d :: rest =>
    if c = '\r' then
      if d = '\n' then normalizeNewlines (d :: rest) else '\n' :: normalizeNewlines (d :: rest)
    else c :: normalizeNewlines (d :: rest)

/-- The scripts below a directory in the order of their paths. -/
def scriptsBelow (tree : FileTree) (root : Path) : List Text :=
  let files := (tree.filesBelow root).filter fun file => isScriptName (file.1.getLast?.getD "")
  let sorted := files.mergeSort fun a b => componentsLe a.1 b.1
  sorted.map fun file => normalizeNewlines (decodeUtf8Lossy file.2)

/-- The scripts below what should be a directory; below anything else there are none. -/
def loadScripts (tree : FileTree) (root : Path) : Except FileFault (List Text) := do
  if ← tree.isDirectory root then return scriptsBelow tree root else return []

/-- How many diagnostics scripts have under the default configuration. -/
def countDiagnostics (texts : List Text) : Nat :=
  texts.foldl (fun count text => count + (lint {} text).length) 0

def runsOption : OptionSpec := ⟨["--runs"], .value .integer⟩

def profileOption : OptionSpec := ⟨["--profile"], .flag⟩

def benchmarkGrammar : Grammar where
  options := [helpOption, runsOption, profileOption]
  operand := "root"
  shape := .one

inductive BenchmarkEnd where
  /-- It ran; a plain run begins its output with a summary. -/
  | ran (summary : Option String)
  /-- There was nothing to run. -/
  | refused (message : String)
  /-- The root could not be looked up. -/
  | faulty (root : Path) (fault : FileFault)
  /-- The number of runs was left empty. -/
  | uncounted
  /-- The arguments ended it. -/
  | halted (halt : Halt)

/-- The wording for a number of runs left empty. -/
def uncountedMessage : String := "'>' not supported between instances of 'int' and 'list'"

def benchmark (tree : FileTree) (arguments : List String) : BenchmarkEnd :=
  let parsed := do
    let p ← benchmarkGrammar.parse arguments
    refuseExtras p.extras
    return p
  match parsed with
  | .error halt => .halted halt
  | .ok p =>
    let root := Path.ofString ((p.operands.getD []).headD "")
    match tree.isDirectory root with
    | .error fault => .faulty root fault
    | .ok false => .refused s!"Invalid root directory: {root.render}"
    | .ok true =>
      let texts := scriptsBelow tree root
      if texts.isEmpty then .refused s!"No .csc files found under {root.render}"
      else if p.has "--profile" then .ran none
      else if p.setting "--runs" = .empty then .uncounted
      else
        let files := texts.length
        let count := countDiagnostics texts
        .ran (some s!"{files} files, {count} diagnostics per pass")

end CalcLint
