/-
# `ChipEight.Main` — the program

Reads the arguments and, if they call for it, one file; prints the answer and
ends with its code.  A breakdown is printed as an error and has code 1.
-/
import ChipEight.CommandLine.Response
import ChipEight.Options.Lax

namespace ChipEight

namespace SystemError

/-- Refusals of files that are worded in different ways by different operations. -/
def wellKnown : List SystemError :=
  [⟨5, "Input/output error"⟩, ⟨13, "Permission denied"⟩, nameTooLong]

/-- The error with a code, which is a number or, for some operations, its negation. -/
def ofCode (code : UInt32) (description : String) : SystemError :=
  let number := if code < 0x80000000 then code.toNat else (-code).toNat
  (wellKnown.find? fun e => e.number = number).getD ⟨number, description⟩

/-- The number and the description of an error. -/
def ofError : IO.Error → SystemError
  | .alreadyExists _ code description | .invalidArgument _ code description
  | .permissionDenied _ code description | .resourceExhausted _ code description
  | .inappropriateType _ code description | .noSuchThing _ code description
  | .interrupted _ code description | .noFileOrDirectory _ code description
  | .otherError code description | .resourceBusy code description
  | .resourceVanished code description | .unsupportedOperation code description
  | .hardwareFault code description | .unsatisfiedConstraints code description
  | .illegalOperation code description | .protocolError code description
  | .timeExpired code description => .ofCode code description
  | .unexpectedEof => ⟨0, "end of file"⟩
  | .userError description => ⟨0, description⟩

end SystemError

/-- Whether a regular file is at a path. -/
def isRegularFile (path : Path) : IO Bool := do
  let place := (← IO.currentDir) / path.text
  return (← place.metadata).type matches .file

/-- The bytes of a regular file. -/
def readRom (path : Path) : IO (Except Obstacle (List Byte)) := do
  try
    unless ← isRegularFile path do return .error .missing
  catch e => return .error (.ofLookup (.ofError e))
  try
    let bytes ← IO.FS.readBinFile path.text
    return .ok (bytes.toList.map fun b => b.toBitVec)
  catch e => return .error (.readRefused (.ofError e))

/-- A seed that nobody chose. -/
def freshSeed : IO Int := do
  let bytes ← IO.getRandomBytes 16
  return bytes.toList.foldl (fun n b => n * 256 + b.toNat) 0

/-- The validator in use; the address of its pages about problems is not known here. -/
def validator : Validator Problem := .lax none

/-- How a command line ends. -/
def outcomeOf (argv : List String) : IO CommandLine.Outcome := do
  match CommandLine.prepare validator argv with
  | .error outcome => return outcome
  | .ok plan => return plan.conclude (← readRom plan.path) (← freshSeed)

end ChipEight

/-- Answers the command line. -/
def main (argv : List String) : IO UInt32 := do
  match ← ChipEight.outcomeOf argv with
  | .answer response =>
      (← IO.getStdout).putStr response.stdout
      (← IO.getStderr).putStr response.stderr
      return UInt32.ofNat response.code
  | .breakdown log b =>
      (← IO.getStderr).putStrLn (log ++ b.message)
      return 1
