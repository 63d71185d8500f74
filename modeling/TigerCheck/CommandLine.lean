import TigerCheck.Report
import TigerCheck.Tree.Decode

/-!
# The command line

`tigerc check FILE` checks the program in a file, and `tigerc version` says what the program is. The
diagnostics go to standard error, or into a report on standard output if `--json` is given. The exit
status is 0 for a right program, 1 for a wrong one, and 2 if there is no program to check.

* `Invocation`, `Invocation.parse?`: what the arguments ask for.
* `ReadFailure`: why a file cannot be read.
* `Finding`, `Finding.ofContents`: what is found out about a file.
* `Outcome`, `Finding.outcome`, `Outcome.ofArguments`: exit status and output.
-/

namespace TigerCheck

/-- What the arguments ask for. -/
inductive Invocation where
  | check (path : String) (json : Bool)
  /-- The name and the version. -/
  | version
  /-- The name, the version and the purpose. -/
  | about
deriving DecidableEq

namespace Invocation

/-- Whether an argument is an option. A lone `-` is not. -/
def isOption (arg : String) : Bool := arg.startsWith "-" && arg != "-"

/-- Take an argument as the file, if there is none yet. A file has a name. -/
def addFile (file : Option String) (arg : String) : Option (Option String) :=
  if file.isSome || arg.isEmpty then none else some (some arg)

/-- The arguments of `check`, given the file and the option so far and whether options have ended.
`--` ends the options; each argument behind it is a file. -/
def parseCheck (file : Option String) (json ended : Bool) : List String → Option Invocation
  | [] => file.map (check · json)
  | arg :: args =>
    if ended then do parseCheck (← addFile file arg) json true args
    else if arg = "--" then parseCheck file json true args
    else if arg = "--json" then if json then none else parseCheck file true false args
    else if isOption arg then none
    else do parseCheck (← addFile file arg) json false args

/-- The invocation that some arguments spell, if they spell one. The option for the version may be
written `-V`, with anything behind the letter, and whatever follows it is not looked at. -/
def parse? : List String → Option Invocation
  | "check" :: args => parseCheck none false false args
  | "version" :: args => if args = [] ∨ args = ["--"] then some about else none
  | arg :: _ => if arg = "--version" ∨ arg.startsWith "-V" then some version else none
  | [] => none

end Invocation

/-- Why a file cannot be read. -/
inductive ReadFailure where
  | missing
  | directory
  | notDirectory
  | denied
  | nameTooLong
  | notText
  | other (reason : String)
deriving DecidableEq

/-- The wording of a failure, as the operating system has it. -/
def ReadFailure.message : ReadFailure → String
  | missing => "No such file or directory (os error 2)"
  | denied => "Permission denied (os error 13)"
  | notDirectory => "Not a directory (os error 20)"
  | directory => "Is a directory (os error 21)"
  | nameTooLong => "File name too long (os error 36)"
  | notText => "stream did not contain valid UTF-8"
  | other reason => reason

/-- What is found out about a file. -/
inductive Finding where
  | unreadable (failure : ReadFailure)
  /-- The text spells no program. -/
  | notProgram
  | broken (breach : Breach)
  | analyzed (analysis : Analysis)

namespace Finding

/-- What is found out about a text. -/
def ofText (text : String) : Finding :=
  match Program.decode? text with
  | none => .notProgram
  | some p =>
    match analyze p with
    | .ok (_, a) => .analyzed a
    | .error b => .broken b

/-- What is found out about the contents of a file. -/
def ofContents : Except ReadFailure ByteArray → Finding
  | .error f => .unreadable f
  | .ok bytes =>
    match String.fromUTF8? bytes with
    | some text => ofText text
    | none => .unreadable .notText

end Finding

/-- An exit status, and what is written on standard output and on standard error. -/
structure Outcome where
  status : Nat
  stdout : String := ""
  stderr : String := ""
deriving DecidableEq

/-- Without a program to check there is only an error. -/
def Outcome.failed (reason : String) : Outcome := { status := 2, stderr := "Error: " ++ reason ++ "\n" }

/-- The outcome of checking a file, given how long the analysis took. -/
def Finding.outcome (path : String) (json : Bool) (elapsedMs : Nat) : Finding → Outcome
  | unreadable f => .failed ("failed to read " ++ path ++ ": " ++ f.message)
  | notProgram => .failed (path ++ " is not a valid Tiger AST")
  | broken _ => .failed ("the analysis of " ++ path ++ " was cut short")
  | analyzed a =>
    let status := if a.hasError then 1 else 0
    if json then { status, stdout := (Report.ofAnalysis a path elapsedMs).text ++ "\n" }
    else if a.hasError then { status, stderr := a.diagnostics.text }
    else { status, stdout := "✅ No errors found\n" }

namespace Outcome

/-- The name and the version of the program. -/
def versionLine : String := "tigerc 0.1.0\n"

/-- What is written if the arguments spell no invocation. -/
def usage : String :=
  "usage: tigerc check [--json] FILE\n       tigerc version\n       tigerc --version\n"

/-- The outcome of an invocation, given how files are read and how long the analysis takes. -/
def ofInvocation (read : String → Except ReadFailure ByteArray) (elapsedMs : Nat) :
    Invocation → Outcome
  | .check path json => (Finding.ofContents (read path)).outcome path json elapsedMs
  | .version => { status := 0, stdout := versionLine }
  | .about => { status := 0, stdout := versionLine ++ "Tiger semantic checker\n" }

/-- The outcome of some arguments, given how files are read and how long the analysis takes. -/
def ofArguments (read : String → Except ReadFailure ByteArray) (elapsedMs : Nat)
    (args : List String) : Outcome :=
  match Invocation.parse? args with
  | some i => ofInvocation read elapsedMs i
  | none => { status := 2, stderr := usage }

end Outcome

end TigerCheck
