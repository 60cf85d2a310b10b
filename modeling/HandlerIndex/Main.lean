import HandlerIndex.CommandLine.Report

/-!
The program. It reads the workspace and the database from the disk, runs a command on them, and
writes the database back. This is the only layer with effects, and nothing is stated about it.
-/
namespace HandlerIndex.Main
open CommandLine (Invocation Opened Request)

def isRead (name : String) : Bool :=
  isSupported name || Path.isIgnoreFile name || name == Settings.fileName || name == "exclude"

def isEntered (name : String) : Bool :=
  !Workspace.startsWithDot name.toList || name == Settings.directoryName || name == ".git"

/-- Reads a directory with all below it that is of use. Links are not followed, and what cannot be
read is left out. -/
partial def readDirectory (path : String) : IO Entry := do
  let mut entries := #[]
  for found in ← (IO.FS.realPath path >>= fun real => real.readDir) do
    try
      let inner := Path.join path found.fileName
      match (← found.path.symlinkMetadata).type with
      | .dir =>
        if isEntered found.fileName then
          entries := entries.push (found.fileName, ← readDirectory inner)
      | .file =>
        let content ←
          if isRead found.fileName then IO.FS.readBinFile inner else pure ByteArray.empty
        entries := entries.push (found.fileName, .file content.data.toList)
      | _ => pure ()
    catch _ => pure ()
  return .directory entries.toList

def mount (disk : Disk) (path : String) (entry : Entry) : Disk :=
  match disk.makeDirectories path with
  | .ok made =>
    match made.follow path with
    | .ok way => ⟨made.top.setAt (some entry) (Disk.Way.names way)⟩
    | .error _ => disk
  | .error _ => disk

def readRoot (disk : Disk) (root : String) : IO Disk := do
  try return mount disk root (← readDirectory root)
  catch _ => return disk

def readDatabase (disk : Disk) (database : String) : IO Disk := do
  try
    let path ← IO.FS.realPath database
    if ← path.isDir then return mount disk database (.directory [])
    return mount disk database (.file (← IO.FS.readBinFile database).data.toList)
  catch _ => return disk

def writeDatabase (disk : Disk) (database : String) : IO Unit := do
  match disk.readBytes database with
  | .ok content =>
    let above := ((Path.parents database.toList).head?.map String.ofList).getD ""
    if !above.isEmpty then IO.FS.createDirAll above
    IO.FS.writeBinFile database ⟨content.toArray⟩
  | .error _ => return

def defaultDatabase (home cache : Option String) (root : String) : String :=
  match home with
  | none => Path.join (Settings.directoryIn root) "index.db"
  | some home =>
    let location := DatabaseLocation.ofWorkspace home cache root
    Path.join location.directory location.fileName

def secondsNow : IO Int64 := do
  let some real ← (try some <$> IO.FS.realPath "/proc/self" catch _ => pure none) | return 0
  return Int64.ofInt (← real.metadata).modified.sec

def poll (root : String) (before : Disk) (opened : Opened) (watcher : Workspace.Watcher) :
    IO (Disk × Opened × Workspace.Watcher) := do
  let after ← readRoot .empty root
  let paths := fun (disk : Disk) => (Workspace.walk disk root opened.index.settings).map
    (Workspace.FoundFile.pathIn root)
  let watcher := watcher.notice opened.index after (paths before ++ paths after)
  let (watcher, tables) := watcher.flush opened.index after (← secondsNow) opened.tables
  return (after, { opened with tables := tables }, watcher)

partial def watch (root : String) (before : Disk) (opened : Opened) (watcher : Workspace.Watcher) :
    IO Unit := do
  IO.sleep (UInt32.ofNat (max 10 opened.index.settings.watchPause.toNat))
  let (after, opened, watcher) ← poll root before opened watcher
  match opened.save with
  | .ok disk => writeDatabase disk opened.database
  | .error _ => pure ()
  watch root after opened watcher

def fail (message : String) : IO UInt32 := do
  IO.eprintln ("Error: " ++ message)
  return 1

def runRequest (request : Request) : IO UInt32 := do
  let start ← IO.monoMsNow
  let root ← try pure (← IO.FS.realPath request.root).toString catch _ => pure request.root
  let database := request.database.getD
    (defaultDatabase (← IO.getEnv "HOME") (← IO.getEnv "XDG_CACHE_HOME") root)
  let request := { request with root := root, database := some database }
  let disk ← readDatabase (← readRoot .empty root) database
  let run := CommandLine.run disk (fun _ => database) (← secondsNow) request
  writeDatabase run.disk database
  let duration := toString ((← IO.monoMsNow) - start) ++ "ms"
  IO.print ((run.report.map (CommandLine.Report.text duration)).getD "")
  if let some fault := run.fault then return ← fail fault.message
  if request.command = .watch then
    match CommandLine.openIndex run.disk (fun _ => database) request with
    | .error fault => return ← fail fault.message
    | .ok opened =>
      match Workspace.Watcher.start opened.index run.disk with
      | .error fault => return ← fail fault.message
      | .ok watcher => watch root run.disk opened watcher
  return 0

def run (arguments : List String) : IO UInt32 := do
  match Invocation.ofArguments arguments with
  | .version => IO.print CommandLine.versionText; return 0
  | .help topic => IO.print (CommandLine.helpText topic); return 0
  | .misuse => IO.eprint CommandLine.generalHelp; return 2
  | .run request => runRequest request

end HandlerIndex.Main

def main (arguments : List String) : IO UInt32 := HandlerIndex.Main.run arguments
