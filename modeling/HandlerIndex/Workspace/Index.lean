import HandlerIndex.Php.Reader
import HandlerIndex.Store.Search
import HandlerIndex.Store.Updates
import HandlerIndex.Text.Digest
import HandlerIndex.Workspace.Discovery

/-!
The index service of one workspace. A file is read again only when its fingerprint has changed;
otherwise its payload comes from the tables. Left out are durations and the log. The workers that
share a run have a module of their own.
-/
namespace HandlerIndex.Workspace
open Store (Tables)

structure Source where
  content : String
  enabled : Bool
  rules : ExtractionRules
  deriving DecidableEq

structure Index where
  root : String
  settings : Settings
  fingerprint : Source → String

inductive Fault where
  | unsupported (path : String)
  | unreadable (fault : DiskFault)
  | store (fault : Store.Fault)
  | watch
  deriving DecidableEq, Repr

def Fault.message : Fault → String
  | .unsupported path => "Not a PHP file: " ++ path
  | .unreadable fault => "IO error: " ++ fault.message
  | .store fault => "Index error: " ++ fault.message
  | .watch => "Watch error: No path was found."

/-- What indexing a file did: its payload was extracted, or taken from the tables. -/
inductive Outcome where
  | indexed (payload : Payload)
  | unchanged (payload : Payload)
  deriving DecidableEq

def Outcome.payload : Outcome → Payload
  | .indexed payload => payload
  | .unchanged payload => payload

structure Stats where
  discovered : Nat := 0
  indexed : Nat := 0
  unchanged : Nat := 0
  failed : Nat := 0
  removed : Nat := 0
  subscriptions : Nat := 0
  deriving DecidableEq, Repr

def Source.payload (source : Source) : Payload :=
  (runExtraction (fun content => some (Php.parse content)) source.rules source.enabled
    source.content).payload

def Source.digest (source : Source) : String :=
  let convention := source.rules.convention
  Text.hexText (Text.digestTexts (
    source.content.toList :: (if source.enabled then ['1'] else ['0']) ::
    source.rules.methodName.toList
      :: [convention.separator] :: convention.markers.map String.toList))

namespace Index
variable (index : Index)

def load (disk : Disk) (root : String) : Index where
  root := root
  settings := Settings.loadOrStandard disk root
  fingerprint := Source.digest

def source (content : String) : Source where
  content := content
  enabled := index.settings.enabled
  rules := index.settings.rules

def resolve (path : String) : String := Path.join index.root path

def relative? (path : String) : Option String := Path.relative? index.root path

def cached? (tables : Tables) (file : String) (source : Source) :
    Except Store.Fault (Option Payload) :=
  if tables.needsReindex file (index.fingerprint source) then .ok none else tables.filePayload file

def store (now : Int64) (tables : Tables) (file : String) (source : Source) : Outcome × Tables :=
  (.indexed source.payload, tables.put now file (index.fingerprint source) source.payload)

def indexSource (now : Int64) (tables : Tables) (file : String) (source : Source) :
    Except Fault (Outcome × Tables) :=
  match index.cached? tables file source with
  | .error fault => .error (.store fault)
  | .ok (some payload) => .ok (.unchanged payload, tables)
  | .ok none => .ok (index.store now tables file source)

def indexContent (now : Int64) (tables : Tables) (file content : String) :
    Except Fault (Outcome × Tables) :=
  if isSupported file then index.indexSource now tables file (index.source content)
  else .error (.unsupported file)

def indexRead (disk : Disk) (now : Int64) (tables : Tables) (file : String) :
    Except Fault (Outcome × Tables) :=
  match disk.readText (index.resolve file) with
  | .ok content => index.indexSource now tables file (index.source content)
  | .error fault => .error (.unreadable fault)

def indexFile (disk : Disk) (now : Int64) (tables : Tables) (file : String) :
    Except Fault (Outcome × Tables) :=
  if isSupported file then index.indexRead disk now tables file else .error (.unsupported file)

def indexNext (disk : Disk) (now : Int64) (state : Stats × Tables) (file : String) :
    Stats × Tables :=
  let (stats, tables) := state
  match index.indexRead disk now tables file with
  | .error _ => ({ stats with failed := stats.failed + 1 }, tables)
  | .ok (outcome, tables) =>
    let stats :=
      { stats with subscriptions := stats.subscriptions + outcome.payload.subscriptionCount }
    match outcome with
    | .indexed _ => ({ stats with indexed := stats.indexed + 1 }, tables)
    | .unchanged _ => ({ stats with unchanged := stats.unchanged + 1 }, tables)

def staleFiles (tables : Tables) (discovered : List String) : List String :=
  (tables.indexedFiles.map (·.file)).filter fun file => !discovered.contains file

/-- Indexes every file of the workspace, and forgets the files that are no longer there. -/
def indexWorkspace (disk : Disk) (now : Int64) (tables : Tables) : Stats × Tables :=
  let files := discover disk index.root index.settings
  let stale := staleFiles tables files
  files.foldl (index.indexNext disk now)
    ({ discovered := files.length, removed := stale.length }, stale.foldl Tables.remove tables)

end Index

def statsOf (tables : Tables) : Except Store.Fault Stats := do
  let subscriptions ← tables.subscriptionTotal
  .ok { indexed := tables.fileTotal, subscriptions := subscriptions.toNat }

end HandlerIndex.Workspace
