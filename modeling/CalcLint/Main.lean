import CalcLint.CommandLine

/-!
# The executable

Reads the files an invocation names, runs it on a bare host, and carries out what it asks for.
-/
namespace CalcLint

/-- The paths an invocation may read. -/
def Invocation.paths (invocation : Invocation) : List Path :=
  let files := match invocation.command with
    | .check files _ _ => files
    | .fix file _ _ => [file]
    | .tokens file => [file]
  let config := match invocation.config with
    | .value path => [path]
    | _ => []
  (config ++ files).map Path.ofString

/-- The fault behind an error of the operating system. A wrong type shows on opening when the path
leads through a file, and only on reading, where the path is no longer known, for a directory. -/
def faultOf : IO.Error → FileFault
  | .noFileOrDirectory _ _ _ => .notFound
  | .inappropriateType (some _) _ _ => .notDirectory
  | .inappropriateType none _ _ => .isDirectory
  | .invalidArgument _ _ _ => .nameTooLong
  | .permissionDenied _ number text | .alreadyExists _ number text
  | .resourceExhausted _ number text | .noSuchThing _ number text
  | .interrupted _ number text => .refused number.toNat text
  | .hardwareFault number text | .resourceBusy number text | .resourceVanished number text
  | .unsupportedOperation number text | .unsatisfiedConstraints number text
  | .illegalOperation number text | .protocolError number text | .timeExpired number text
  | .otherError number text => .brokenOff number.toNat text
  | .unexpectedEof => .brokenOff 0 ""
  | .userError text => .brokenOff 0 text

def readFile (path : Path) : IO (Except FileFault Bytes) := do
  try
    let bytes ← IO.FS.readBinFile path.render
    return .ok bytes.toList
  catch error => return .error (faultOf error)

/-- The files an invocation may read, as they are now. -/
def snapshot (paths : List Path) : IO Disk := do
  let contents ← paths.mapM fun path => return (path, ← readFile path)
  return fun path => (contents.lookup path).getD (.error .notFound)

/-- Carry out what a run writes. -/
def writeFiles (writes : List (Path × Bytes)) : IO Unit := do
  for (path, bytes) in writes do
    IO.FS.writeBinFile path.render ⟨bytes.toArray⟩

end CalcLint

def main (arguments : List String) : IO UInt32 := do
  let paths := match CalcLint.Invocation.parse arguments with
    | .ok invocation => invocation.paths
    | .error _ => []
  let disk ← CalcLint.snapshot paths
  CalcLint.writeFiles (CalcLint.writesOf .bare disk arguments)
  match CalcLint.run .bare disk arguments with
  | .ok outcome => do
    IO.print outcome.stdout
    IO.eprint outcome.stderr
    return outcome.exit.toUInt32
  | .error escape => do
    IO.eprintln escape.message
    return 1
