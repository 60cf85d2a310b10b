import HandlerIndex.Disk
import HandlerIndex.Extraction
import HandlerIndex.Json.Printer
import HandlerIndex.Json.Reader

/-!
The project settings of a workspace, kept as JSON in a directory of its own. A setting that is not
given has its default, and members of other names are passed over. An array is read as the settings
in their order. Left out are the wording of faults, and where in the file they stand.
-/
namespace HandlerIndex

structure Settings where
  enabled : Bool
  methodName : String
  keyMarkers : List String
  keySeparator : Char
  respectIgnoreFiles : Bool
  ignoredDirectories : List String
  workers : UInt64
  watchPause : UInt64
  deriving DecidableEq, Repr

namespace Settings

def directoryName : String := ".subscriber-index"

def fileName : String := "settings.json"

def standard : Settings where
  enabled := true
  methodName := ExtractionRules.standard.methodName
  keyMarkers := Convention.standard.markers
  keySeparator := Convention.standard.separator
  respectIgnoreFiles := true
  ignoredDirectories := ["vendor", "node_modules", "var", "cache", ".git", directoryName]
  workers := 0
  watchPause := 2000

def rules (settings : Settings) : ExtractionRules where
  methodName := settings.methodName
  convention := { markers := settings.keyMarkers, separator := settings.keySeparator }

def isIgnoredDirectory (settings : Settings) (name : String) : Bool :=
  settings.ignoredDirectories.contains name

/-! The values of single settings. -/

def readBool : Json → Option Bool
  | .bool value => some value
  | _ => none

def readText : Json → Option String
  | .text content => content
  | _ => none

def readTexts : Json → Option (List String)
  | .array items => items.mapM readText
  | _ => none

def readChar (value : Json) : Option Char := do
  match (← readText value).toList with
  | [c] => some c
  | _ => none

def readCount : Json → Option UInt64
  | .number (some n) => if n < UInt64.size then some (UInt64.ofNat n) else none
  | _ => none

def readOr {α : Type} (standard : α) (read : Json → Option α) : Option Json → Option α
  | none => some standard
  | some value => read value

def memberNames : List String :=
  ["enabled", "method_name", "key_markers", "key_separator", "respect_gitignore", "ignored_dirs",
    "workers", "watch_debounce_ms"]

def ofValues : List (Option Json) → Option Settings
  | [enabled, methodName, keyMarkers, keySeparator, respectIgnoreFiles, ignoredDirectories, workers,
      watchPause] => do
    some {
      enabled := ← readOr standard.enabled readBool enabled
      methodName := ← readOr standard.methodName readText methodName
      keyMarkers := ← readOr standard.keyMarkers readTexts keyMarkers
      keySeparator := ← readOr standard.keySeparator readChar keySeparator
      respectIgnoreFiles := ← readOr standard.respectIgnoreFiles readBool respectIgnoreFiles
      ignoredDirectories := ← readOr standard.ignoredDirectories readTexts ignoredDirectories
      workers := ← readOr standard.workers readCount workers
      watchPause := ← readOr standard.watchPause readCount watchPause }
  | _ => none

/-- The value of the member with a name, if there is one. There must not be two. -/
def memberValue (members : List (Option String × Json)) (name : String) : Option (Option Json) :=
  match members.filter (·.1 == some name) with
  | [] => some none
  | [member] => some (some member.2)
  | _ => none

def ofJson : Json → Option Settings
  | .array items =>
    if items.length ≤ memberNames.length then
      ofValues (items.map some ++ List.replicate (memberNames.length - items.length) none)
    else none
  | .object members => do
    if members.any (·.1.isNone) then none
    ofValues (← memberNames.mapM (memberValue members))
  | _ => none

def toJson (settings : Settings) : Json :=
  let texts := fun values => Json.array (values.map fun value => .text (some value))
  .object (List.zip (memberNames.map some) [
    .bool settings.enabled,
    .text (some settings.methodName),
    texts settings.keyMarkers,
    .text (some (String.singleton settings.keySeparator)),
    .bool settings.respectIgnoreFiles,
    texts settings.ignoredDirectories,
    .number (some settings.workers.toNat),
    .number (some settings.watchPause.toNat)])

def parse? (content : String) : Option Settings := do ofJson (← Json.parse? content)

def print (settings : Settings) : String := settings.toJson.pretty

/-! Loading and saving. -/

inductive Fault where
  | missing
  | unreadable (fault : DiskFault)
  | malformed
  deriving DecidableEq, Repr

def Fault.message : Fault → String
  | .missing => "Settings file does not exist"
  | .unreadable fault => "Failed to read settings: " ++ fault.message
  | .malformed => "Failed to parse settings"

def directoryIn (root : String) : String := Path.join root directoryName

def pathIn (root : String) : String := Path.join (directoryIn root) fileName

def load (disk : Disk) (root : String) : Except Fault Settings :=
  if disk.has (pathIn root) then
    match disk.readText (pathIn root) with
    | .error fault => .error (.unreadable fault)
    | .ok content =>
      match parse? content with
      | some settings => .ok settings
      | none => .error .malformed
  else .error .missing

def loadOrStandard (disk : Disk) (root : String) : Settings :=
  match load disk root with
  | .ok settings => settings
  | .error _ => standard

def save (disk : Disk) (root : String) (settings : Settings) : Except Fault Disk :=
  let saved := do
    (← disk.makeDirectories (directoryIn root)).write (pathIn root) (Text.toBytes settings.print)
  match saved with
  | .ok disk => .ok disk
  | .error fault => .error (.unreadable fault)

end Settings
end HandlerIndex
