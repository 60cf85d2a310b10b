import HandlerIndex.CommandLine.Usage
import HandlerIndex.Json.Printer
import HandlerIndex.Store.Snapshot
import HandlerIndex.Workspace.Watcher

/-!
The commands of the command line: what they do, and what they report. Commands work on the tables
that a file of the disk holds; the tables are opened before a command, and written back after it.
Left out are the log, the error output, and how long anything takes.
-/
namespace HandlerIndex.CommandLine
open Store (Tables)
open Workspace (Fault Index Stats)

structure Status where
  root : String
  database : String
  enabled : Bool
  files : Nat
  events : Nat
  subscriptions : Except Store.Fault UInt64

inductive Report where
  | indexed (stats : Stats)
  | handlers (event : String) (hits : List (String × Subscription))
  | handlerList (hits : List (String × Subscription))
  | events (found : List Store.Match)
  | status (current : Status)
  | watching
  | cleared

def statsLine (duration : String) (stats : Stats) : String :=
  toString stats.discovered ++ " files, " ++ toString stats.indexed ++ " indexed, "
    ++ toString stats.unchanged ++ " unchanged, " ++ toString stats.failed ++ " failed, "
    ++ toString stats.removed ++ " removed, " ++ toString stats.subscriptions ++ " subscriptions ("
    ++ duration ++ ")\n"

def handlerLine (hit : String × Subscription) : String :=
  hit.2.serviceName ++ "\t" ++ hit.2.signature ++ "\t" ++ hit.1 ++ "\n"

def handlerJson (hit : String × Subscription) : Json :=
  .object [(some "file", .text (some hit.1)), (some "key", .text (some hit.2.rawKey)),
    (some "service", .text (some hit.2.serviceName)),
    (some "signature", .text (some hit.2.signature))]

def eventLine (found : Store.Match) : String :=
  found.summary.event ++ "\t" ++ toString found.summary.subscriptionCount.toNat ++ " handlers in "
    ++ toString found.summary.fileCount.toNat ++ " files\n"

def Status.text (status : Status) : String :=
  "workspace:     " ++ status.root ++ "\n" ++ "database:      " ++ status.database ++ "\n"
    ++ "enabled:       " ++ (if status.enabled then "true" else "false") ++ "\n"
    ++ "files:         " ++ toString status.files ++ "\n"
    ++ "events:        " ++ toString status.events ++ "\n"
    ++ (match status.subscriptions with
      | .ok total => "subscriptions: " ++ toString total.toNat ++ "\n"
      | .error _ => "")

def Report.text (duration : String) : Report → String
  | .indexed stats => statsLine duration stats
  | .handlers event [] => "No handlers for " ++ event ++ "\n"
  | .handlers _ hits => String.join (hits.map handlerLine)
  | .handlerList hits => Json.pretty (.array (hits.map handlerJson)) ++ "\n"
  | .events found => String.join (found.map eventLine)
  | .status current => current.text
  | .watching => ""
  | .cleared => "Index cleared\n"

def Report.fault? : Report → Option Fault
  | .status current =>
    match current.subscriptions with
    | .ok _ => none
    | .error fault => some (.store fault)
  | _ => none

def ask {α : Type} (answer : Except Store.Fault α) : Except Fault α :=
  match answer with
  | .ok value => .ok value
  | .error fault => .error (.store fault)

def execute (disk : Disk) (now : Int64) (index : Index) (database : String) (tables : Tables) :
    Command → Except Fault (Report × Tables)
  | .index =>
    let (stats, tables) := index.indexWorkspace disk now tables
    .ok (.indexed stats, tables)
  | .lookup event json => do
    let hits ← ask (tables.lookup event)
    .ok (if json then .handlerList hits else .handlers event hits, tables)
  | .events pattern limit minFiles => do
    let query := { text := some (pattern.getD ""), minFiles := minFiles, limit := some limit.toNat }
    .ok (.events (← ask (tables.search query)), tables)
  | .status =>
    .ok (.status {
      root := index.root
      database := database
      enabled := index.settings.enabled
      files := tables.fileTotal
      events := tables.eventTotal
      subscriptions := tables.subscriptionTotal }, tables)
  | .watch =>
    let (_, tables) := index.indexWorkspace disk now tables
    .ok (.watching, tables)
  | .clear => .ok (.cleared, tables.invalidateAll)

def placeOf (disk : Disk) (database : String) : Store.Place :=
  match disk.find database with
  | .ok (.file content) => Store.Snapshot.decode content
  | .ok (.directory _) => .directory
  | .error .notFound => .nothing
  | .error _ => .belowFile

structure Opened where
  index : Index
  database : String
  tables : Tables
  disk : Disk

def diskFault {α : Type} (result : Except DiskFault α) : Except Fault α :=
  match result with
  | .ok value => .ok value
  | .error fault => .error (.unreadable fault)

def Opened.save (opened : Opened) : Except Fault Disk :=
  diskFault (opened.disk.write opened.database (Store.Snapshot.encode opened.tables))

def openIndex (disk : Disk) (defaultDatabase : String → String) (request : Request) :
    Except Fault Opened := do
  let root ← diskFault (disk.canonical request.root)
  let database := request.database.getD (defaultDatabase root)
  let above := ((Path.parents database.toList).head?.map String.ofList).getD ""
  let disk ← diskFault (disk.makeDirectories above)
  let tables ← ask (placeOf disk database).load
  let opened : Opened :=
    { index := Index.load disk root, database := database, tables := tables, disk := disk }
  .ok { opened with disk := ← opened.save }

structure Run where
  disk : Disk
  report : Option Report
  fault : Option Fault

def run (disk : Disk) (defaultDatabase : String → String) (now : Int64) (request : Request) : Run :=
  match openIndex disk defaultDatabase request with
  | .error fault => { disk := disk, report := none, fault := some fault }
  | .ok opened =>
    match execute opened.disk now opened.index opened.database opened.tables request.command with
    | .error fault => { disk := opened.disk, report := none, fault := some fault }
    | .ok (report, tables) =>
      match { opened with tables := tables }.save with
      | .error fault => { disk := opened.disk, report := none, fault := some fault }
      | .ok disk => { disk := disk, report := some report, fault := report.fault? }

end HandlerIndex.CommandLine
