import HandlerIndex.Path
import HandlerIndex.Text.Utf8

/-!
Files and directories, as far as the index service and the settings see them. A path is followed
from the top one segment after another, so `..` leaves a directory that has to be there, and nothing
can be below a file. What a directory holds has no order of its own. Left out are links,
permissions, times, names that are no text, and failures of the device.
-/
namespace HandlerIndex

inductive Entry where
  | file (content : Text.Bytes)
  | directory (entries : List (String × Entry))

structure Disk where
  top : Entry

inductive DiskFault where
  | invalidInput
  | notFound
  | notADirectory
  | nameTooLong
  | isADirectory
  | invalidData
  deriving DecidableEq, Repr

def DiskFault.message : DiskFault → String
  | .invalidInput => "file name contained an unexpected NUL byte"
  | .notFound => "No such file or directory (os error 2)"
  | .notADirectory => "Not a directory (os error 20)"
  | .nameTooLong => "File name too long (os error 36)"
  | .isADirectory => "Is a directory (os error 21)"
  | .invalidData => "stream did not contain valid UTF-8"

namespace Entry

def isDirectory : Entry → Bool
  | .directory _ => true
  | .file _ => false

def isFile : Entry → Bool
  | .file _ => true
  | .directory _ => false

def child? (entries : List (String × Entry)) (name : String) : Option Entry :=
  (entries.find? (·.1 == name)).map (·.2)

def setChild (entries : List (String × Entry)) (name : String) :
    Option Entry → List (String × Entry)
  | none => entries.filter (·.1 != name)
  | some entry =>
    if entries.any (·.1 == name) then
      entries.map fun old => if old.1 == name then (name, entry) else old
    else entries ++ [(name, entry)]

def setAt (new : Option Entry) : List String → Entry → Entry
  | [], old => new.getD old
  | _, .file content => .file content
  | [name], .directory entries => .directory (setChild entries name new)
  | name :: rest, .directory entries =>
    match child? entries name with
    | some inner => .directory (setChild entries name (some (setAt new rest inner)))
    | none => .directory entries

end Entry

namespace Disk

def empty : Disk := ⟨.directory []⟩

/-- The names that lead to an entry, each with the entry it leads to, the last one first. -/
abbrev Way := List (String × Entry)

def Way.names (way : Way) : List String := (way.map (·.1)).reverse

def here (disk : Disk) (way : Way) : Entry := (way.head?.map (·.2)).getD disk.top

def nameLimit : Nat := 255

def stepInto (disk : Disk) (way : Way) (segment : List Char) : Except DiskFault Way :=
  match disk.here way with
  | .file _ => .error .notADirectory
  | .directory entries =>
    if Path.isNeutral segment then .ok way
    else if segment = ['.', '.'] then .ok way.tail
    else if nameLimit < (Text.toBytes (String.ofList segment)).length then .error .nameTooLong
    else
      let name := String.ofList segment
      match Entry.child? entries name with
      | some entry => .ok ((name, entry) :: way)
      | none => .error .notFound

def follow (disk : Disk) (path : String) : Except DiskFault Way :=
  if path.toList.contains '\x00' then .error .invalidInput
  else if path.isEmpty then .error .notFound
  else (Path.segments path.toList).foldlM disk.stepInto []

def find (disk : Disk) (path : String) : Except DiskFault Entry := do
  .ok (disk.here (← disk.follow path))

def has (disk : Disk) (path : String) : Bool := (disk.find path).isOk

def canonical (disk : Disk) (path : String) : Except DiskFault String := do
  .ok ("/" ++ "/".intercalate (Way.names (← disk.follow path)))

def readBytes (disk : Disk) (path : String) : Except DiskFault Text.Bytes := do
  match ← disk.find path with
  | .file content => .ok content
  | .directory _ => .error .isADirectory

def readText (disk : Disk) (path : String) : Except DiskFault String := do
  match Text.ofBytes (← disk.readBytes path) with
  | .ok content => .ok content
  | .error _ => .error .invalidData

-- The way to a new directory is followed anew, because the entries along it have changed.
def stepMaking (state : Disk × Way) (segment : List Char) : Except DiskFault (Disk × Way) :=
  let (disk, way) := state
  match disk.stepInto way segment with
  | .ok way => .ok (disk, way)
  | .error .notFound => do
    let names := Way.names way ++ [String.ofList segment]
    let made : Disk := ⟨disk.top.setAt (some (.directory [])) names⟩
    .ok (made, ← (names.map String.toList).foldlM made.stepInto [])
  | .error fault => .error fault

def makeDirectories (disk : Disk) (path : String) : Except DiskFault Disk :=
  if path.toList.contains '\x00' then .error .invalidInput
  else do
    let (disk, way) ← (Path.segments path.toList).foldlM stepMaking (disk, [])
    if (disk.here way).isDirectory then .ok disk else .error .notADirectory

def write (disk : Disk) (path : String) (content : Text.Bytes) : Except DiskFault Disk := do
  let parts := Path.segments path.toList
  let name := parts.getLastD []
  if path.toList.contains '\x00' then .error .invalidInput
  let way ← parts.dropLast.foldlM disk.stepInto []
  if Path.isNeutral name ∨ name = ['.', '.'] then .error .isADirectory
  match disk.stepInto way name with
  | .ok inner => if (disk.here inner).isDirectory then .error .isADirectory
  | .error .notFound => pure ()
  | .error fault => .error fault
  .ok ⟨disk.top.setAt (some (.file content)) (Way.names way ++ [String.ofList name])⟩

def writeThrough (disk : Disk) (path : String) (content : Text.Bytes) : Except DiskFault Disk := do
  let above := (Path.segments path.toList).dropLast
  let disk ← disk.makeDirectories (String.ofList (Path.joinSegments above))
  disk.write path content

def delete (disk : Disk) (path : String) : Except DiskFault Disk := do
  let way ← disk.follow path
  match Way.names way with
  | [] => .ok empty
  | names => .ok ⟨disk.top.setAt none names⟩

end Disk
end HandlerIndex
