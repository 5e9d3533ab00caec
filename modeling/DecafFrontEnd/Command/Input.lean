/-
  DecafFrontEnd/Command/Input.lean --- where a text comes from.

  The file of a command line is read as a sequence of bytes, which has to be the
  UTF-8 form of a text.  A single dash stands for standard input.
-/
import DecafFrontEnd.Text.Position

set_option autoImplicit false

namespace DecafFrontEnd

/-- Why a file gives no text. -/
inductive ReadFault where
  | notFound
  | notPermitted
  /-- a step of the path goes on from a file -/
  | notDirectory
  | isDirectory
  /-- the path or one of its names is too long -/
  | nameTooLong
  | notText
  /-- any other, in the words of the system -/
  | other (reason : String)
  deriving DecidableEq, Repr, Inhabited

/-- A fault in words. -/
def ReadFault.reason : ReadFault → String
  | notFound => "No such file or directory (os error 2)"
  | notPermitted => "Permission denied (os error 13)"
  | notDirectory => "Not a directory (os error 20)"
  | isDirectory => "Is a directory (os error 21)"
  | nameTooLong => "File name too long (os error 36)"
  | notText => "stream did not contain valid UTF-8"
  | other reason => reason

/-- The file name that stands for standard input. -/
def standardInput : String := "-"

/-- What standard input is called in reports. -/
def standardInputName : String := "<stdin>"

/-- The name of a text that comes from a file; what comes from standard input
has none. -/
def sourceName? (file : String) : Option String :=
  if file = standardInput then none else some file

/-- What a file is called in reports. -/
def fileName (file : String) : String := (sourceName? file).getD standardInputName

/-- The source that a file gives, from its bytes. -/
def sourceOf (file : String) (bytes : Except ReadFault ByteArray) :
    Except ReadFault Source := do
  match String.fromUTF8? (← bytes) with
  | some text => return Source.ofText text (sourceName? file)
  | none => .error .notText

end DecafFrontEnd
