/-
  DecafFrontEnd/Command/Folder.lean --- files held in memory.

  A `Folder` is a set of files by their paths; it answers as a directory would that
  holds just these.  A path is followed name by name.  A dot stays where one is, two
  dots go back to the directory that holds this one, and every step has to start from
  a directory, that of a slash at the end too.  Above the folder there are directories
  of which nothing else is known.
-/
import DecafFrontEnd.Command.Input
import DecafFrontEnd.Text.Split

set_option autoImplicit false

namespace DecafFrontEnd

/-- Files by their paths; a path without bytes is a directory. -/
structure Folder where
  entries : List (String × Option ByteArray)

/-- Where one is while following a path. -/
inductive Place where
  /-- at a file or directory of the folder, named by the way from the folder -/
  | within (names : List String)
  /-- at a directory that the folder lies in -/
  | above
  deriving DecidableEq, Repr, Inhabited

/-- The place that holds a place. -/
def Place.parent : Place → Place
  | within [] | above => above
  | within (name :: names) => within (name :: names).dropLast

namespace Folder

/-- The greatest length of a path, in bytes. -/
def maxPathLength : Nat := 4095

/-- The greatest length of a name, in bytes. -/
def maxNameLength : Nat := 255

/-- The names in a path; nothing between two slashes is no name. -/
def names (path : String) : List String :=
  ((splitAtEach '/' path.toList).map String.ofList).filter (· ≠ "")

/-- The way from the folder to an entry. -/
def entryNames (path : String) : List String := (names path).filter (· ≠ ".")

/-- What there is at a way from the folder: bytes, a directory, or nothing. -/
def node? (folder : Folder) (way : List String) : Option (Option ByteArray) :=
  if way = [] then some none
  else match folder.entries.find? fun e => entryNames e.1 = way with
    | some (_, content) => some content
    | none =>
        if folder.entries.any fun e => way.isPrefixOf (entryNames e.1) then some none
        else none

/-- Follows one name from a place. -/
def step (folder : Folder) (place : Place) (name : String) : Except ReadFault Place :=
  match place with
  | .above =>
      if name = "." ∨ name = ".." then .ok .above
      else if maxNameLength < name.utf8ByteSize then .error .nameTooLong
      else .error .notFound
  | .within way =>
      match folder.node? way with
      | none => .error .notFound
      | some (some _) => .error .notDirectory
      | some none =>
          if name = "." then .ok place
          else if name = ".." then .ok place.parent
          else if maxNameLength < name.utf8ByteSize then .error .nameTooLong
          else if (folder.node? (way ++ [name])).isSome then .ok (.within (way ++ [name]))
          else .error .notFound

/-- The place that a path leads to. A slash at its end asks for a directory, as a dot
behind it would. -/
def placeOf (folder : Folder) (path : String) : Except ReadFault Place :=
  let start : Place := if path.toList.head? = some '/' then .above else .within []
  let steps := names path ++ if path.toList.getLast? = some '/' then ["."] else []
  steps.foldlM folder.step start

/-- The bytes of the file at a path. -/
def read (folder : Folder) (path : String) : Except ReadFault ByteArray := do
  if maxPathLength < path.utf8ByteSize then .error .nameTooLong
  else if path = "" then .error .notFound
  else
    match ← folder.placeOf path with
    | .above => .error .isDirectory
    | .within way =>
        match folder.node? way with
        | some (some bytes) => .ok bytes
        | some none => .error .isDirectory
        | none => .error .notFound

/-- The bytes of a file of a command line: those of the file at its path, or the
standard input. -/
def readFor (folder : Folder) (input : ByteArray) (file : String) :
    Except ReadFault ByteArray :=
  if file = standardInput then .ok input else folder.read file

end Folder

end DecafFrontEnd
