/-
  DecafFrontEnd/Main.lean --- the program.

  Reads the file that the command line names, runs the command and writes what it
  gives.
-/
import DecafFrontEnd.Command.Run

set_option autoImplicit false

namespace DecafFrontEnd

/-- The number of an error of the system; some come with the sign changed. -/
def errorNumber (code : UInt32) : UInt32 := if code < 0x80000000 then code else 0 - code

/-- The fault behind an error of the system. -/
def ReadFault.ofError : IO.Error → ReadFault
  | .noFileOrDirectory .. => .notFound
  | .permissionDenied .. => .notPermitted
  | .inappropriateType _ code _ => if errorNumber code = 20 then .notDirectory else .isDirectory
  | e@(.invalidArgument _ code _) =>
      if errorNumber code = 36 then .nameTooLong else .other (toString e)
  | e => .other (toString e)

/-- Everything from a stream. -/
partial def readAll (stream : IO.FS.Stream) (soFar : ByteArray) : IO ByteArray := do
  let more ← stream.read 65536
  if more.isEmpty then return soFar else readAll stream (soFar ++ more)

/-- The bytes of a file, or of standard input. -/
def readFile (file : String) : IO (Except ReadFault ByteArray) := do
  try
    if file = standardInput then
      return .ok (← readAll (← IO.getStdin) ByteArray.empty)
    else
      return .ok (← IO.FS.readBinFile file)
  catch e => return .error (ReadFault.ofError e)

/-- Whether the terminal takes colours and nobody has asked for none. -/
def wantsColour : IO Bool := do
  let refused ← IO.getEnv "NO_COLOR"
  let terminal ← IO.getEnv "TERM"
  return refused.isNone && terminal.isSome && terminal != some "dumb"

end DecafFrontEnd

open DecafFrontEnd in
/-- Runs the command line and exits with its status. -/
def main (words : List String) : IO UInt32 := do
  let finish ← match Invocation.ofWords words with
    | .ok invocation =>
        pure (invocation.run (← readFile invocation.file) (← wantsColour))
    | .error fault => pure fault.finish
  (← IO.getStdout).putStr finish.stdout
  (← IO.getStderr).putStr finish.stderr
  return UInt32.ofNat finish.exitCode
