import RecordProjection.CommandLine.Run

/-!
# The program

The outer layer: it reads the files that a command line names, runs it, and prints what comes of it.
-/
namespace RecordProjection.CommandLine

/-- The number of a system error, which may come with a minus sign. -/
def errorNumber (code : UInt32) : Nat :=
  if code.toNat < 0x80000000 then code.toNat else (-code).toNat

/-- The fault behind a failed read. -/
def faultOfError : IO.Error → FileFault
  | .noFileOrDirectory .. => .missing
  | .permissionDenied _ number details | .inappropriateType _ number details
  | .invalidArgument _ number details | .resourceExhausted _ number details =>
    match errorNumber number with
    | 20 => .notDirectory
    | 21 => .isDirectory
    | 36 => .nameTooLong
    | n => .other n details
  | _ => .other 5 "Input/output error"

/-- The octets of the file at a path. -/
def readFile (path : String) : IO (Except FileFault (List UInt8)) := do
  if path.toList.contains '\x00' then return .error .nullInName
  try
    return .ok (← IO.FS.readBinFile path).toList
  catch e => return .error (faultOfError e)

/-- The files at the given paths. -/
def readFiles (paths : List String) : IO Files := do
  let contents ← paths.mapM fun path => return (path, ← readFile path)
  return fun path => (Entries.get? path contents).getD (.error .missing)

/-- Print what came of a command line, and give the code to end with. -/
def report (r : Report) : IO UInt32 := do
  (← IO.getStderr).putStr (r.errors .plain)
  (← IO.getStdout).putStr r.printed
  return (r.ending.exitCode?.getD 1).toUInt32

end RecordProjection.CommandLine

open RecordProjection.CommandLine in
/-- Run the command line that the program is called with. -/
def main (arguments : List String) : IO UInt32 := do
  let (paths, readsStdin) := match readInvocation arguments with
    | .ok invocation => (invocation.paths, invocation.readsStdin)
    | .error _ => ([], false)
  let files ← readFiles paths
  let input ← if readsStdin then (← IO.getStdin).readToEnd else pure ""
  report (run files input arguments)
