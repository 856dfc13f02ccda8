/-
# `Main` — the command line program

Reads the image, prints what the run came to, and leaves the style sheet in
the user's directory for other tools, unless one is there already.
-/
import DwarfOne.Command.Run

namespace DwarfOne

/-- The system's number for a failure and its words for it. -/
def systemFailure : IO.Error → Option (Nat × String)
  | .otherError code details | .resourceBusy code details | .resourceVanished code details
  | .unsupportedOperation code details | .hardwareFault code details
  | .unsatisfiedConstraints code details | .illegalOperation code details
  | .protocolError code details | .timeExpired code details | .interrupted _ code details
  | .alreadyExists _ code details | .noFileOrDirectory _ code details
  | .invalidArgument _ code details | .permissionDenied _ code details
  | .resourceExhausted _ code details | .inappropriateType _ code details
  | .noSuchThing _ code details => some (code.toNat, details)
  | .unexpectedEof | .userError _ => none

/-- The number of the failure to read a directory as a file. -/
def isDirectory : Nat := 21

/-- Why a file could not be read.  A directory counts as a device that is not
there. -/
def readFailure (e : IO.Error) : String :=
  match systemFailure e with
  | none => toString e
  | some (code, details) =>
      let (code, details) := if code = isDirectory then (19, "No such device") else (code, details)
      details ++ " (os error " ++ Numeral.decimal code ++ ")"

def readImage (path : String) : IO (Except String (Array UInt8)) := do
  try
    let bytes ← IO.FS.readBinFile path
    return .ok bytes.data
  catch e => return .error (readFailure e)

/-- Writes the style sheet if there is none. -/
def writeStyleSheet : IO Unit := do
  match ← IO.getEnv "HOME" with
  | none => IO.println "couldn't find home directory"
  | some home =>
      try
        IO.FS.createDirAll (home ++ "/.dwarfview")
        let handle ← IO.FS.Handle.mk (home ++ "/.dwarfview/styles.tcss") .writeNew
        handle.putStr StyleSheet.text
      catch _ => pure ()

def runArguments (words : List String) : IO UInt32 := do
  let out ← IO.getStdout
  let err ← IO.getStderr
  match Arguments.parse words with
  | .error failure =>
      out.putStr failure.stdout
      err.putStr failure.stderr
      return failure.exit.toUInt32
  | .ok invocation =>
      writeStyleSheet
      let file ← readImage invocation.image
      match invocation.run Style.apply file with
      | .ok outcome =>
          err.putStr (outcome.stderr Style.apply)
          out.putStr outcome.stdout
          return outcome.exit.toUInt32
      | .error e =>
          err.putStrLn e.message
          return danglingExit.toUInt32

end DwarfOne

def main (words : List String) : IO UInt32 :=
  DwarfOne.runArguments words
