import TigerCheck.CommandLine

/-!
# The program `tigerc`

Reads a file, lets the library check it, and writes what the library answers.
-/

namespace TigerCheck

/-- The number that the operating system gives an error, which arrives with either sign. -/
def errorNumber (code : UInt32) : Nat := min code.toNat (-code).toNat

/-- The failure that an error of the file system amounts to. -/
def ReadFailure.ofError : IO.Error → ReadFailure
  | .noFileOrDirectory .. => .missing
  | .permissionDenied .. => .denied
  | .inappropriateType _ code _ => if errorNumber code = 20 then .notDirectory else .directory
  | e@(.invalidArgument _ code _) =>
    if errorNumber code = 36 then .nameTooLong else .other (toString e)
  | e => .other (toString e)

/-- The contents of a file. -/
def readContents (path : String) : IO (Except ReadFailure ByteArray) := do
  try
    return .ok (← IO.FS.readBinFile path)
  catch e =>
    return .error (.ofError e)

/-- The outcome of checking a file, with the time that it took. -/
def checkFile (path : String) (json : Bool) : IO Outcome := do
  let contents ← readContents path
  let start ← IO.monoMsNow
  let finding ← IO.lazyPure fun _ => Finding.ofContents contents
  let stop ← IO.monoMsNow
  return finding.outcome path json (stop - start)

end TigerCheck

open TigerCheck

/-- The command line program. -/
def main (args : List String) : IO UInt32 := do
  let outcome ← match Invocation.parse? args with
    | some (.check path json) => checkFile path json
    | _ => pure (Outcome.ofArguments (fun _ => .error .missing) 0 args)
  IO.print outcome.stdout
  IO.eprint outcome.stderr
  return UInt32.ofNat outcome.status
