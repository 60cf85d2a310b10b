import HandlerIndex.Disk
import HandlerIndex.Ignore.Rules
import HandlerIndex.Settings

/-!
The file filter and discovery. The files of a workspace that belong in the index are those of a
supported language, in no hidden or ignored directory, that no ignore file excludes. The same filter
answers for the files of the disk and for a single path, so that both agree. Left out are links,
names that are no text, and directories that cannot be read.
-/
namespace HandlerIndex

structure FoundFile where
  names : List String
  content : Text.Bytes

mutual

/-- The files at or below an entry. Directories with the names to skip are not entered. -/
def Entry.files (skip : String → Bool) (names : List String) : Entry → List FoundFile
  | .file content => [⟨names, content⟩]
  | .directory entries => filesIn skip names entries

def filesIn (skip : String → Bool) (names : List String) : List (String × Entry) → List FoundFile
  | [] => []
  | (name, entry) :: rest =>
    (if entry.isDirectory && skip name then [] else entry.files skip (names ++ [name])) ++
      filesIn skip names rest

end

namespace Workspace

def startsWithDot (name : List Char) : Bool := name.head? == some '.'

def skips (settings : Settings) (name : String) : Bool :=
  startsWithDot name.toList || settings.isIgnoredDirectory name

def walk (disk : Disk) (root : String) (settings : Settings) : List FoundFile :=
  match disk.find root with
  | .ok (.directory entries) => filesIn (skips settings) [] entries
  | _ => []

def FoundFile.pathIn (root : String) (file : FoundFile) : String :=
  Path.join root ("/".intercalate file.names)

def FoundFile.isIgnoreFile (file : FoundFile) : Bool := file.names.getLast? == some ".gitignore"

/-- Which paths of a workspace belong in the index. The ignore files of deeper directories come
later. -/
structure FileFilter where
  root : String
  ignoredDirectories : List String
  ruleSets : List Ignore.RuleSet
  deriving DecidableEq, Repr

def excludePath (root : String) : String :=
  Path.join (Path.join (Path.join root ".git") "info") "exclude"

def excludeRules (disk : Disk) (root : String) : List Ignore.RuleSet :=
  match disk.readBytes (excludePath root) with
  | .ok content => [.ofDirectory root.toList (Ignore.readRules content)]
  | .error _ => []

def ruleSetOf (root : String) (file : FoundFile) : Ignore.RuleSet :=
  .ofDirectory (Path.directory (FoundFile.pathIn root file).toList) (Ignore.readRules file.content)

def ruleSetsOf (root : String) (files : List FoundFile) : List Ignore.RuleSet :=
  let ignoreFiles := files.filter FoundFile.isIgnoreFile
  (ignoreFiles.mergeSort fun a b => decide (a.names.length ≤ b.names.length)).map (ruleSetOf root)

def FileFilter.ofFiles (disk : Disk) (root : String) (settings : Settings)
    (files : List FoundFile) :
    FileFilter where
  root := root
  ignoredDirectories := settings.ignoredDirectories
  ruleSets :=
    if settings.respectIgnoreFiles then excludeRules disk root ++ ruleSetsOf root files else []

def FileFilter.load (disk : Disk) (root : String) (settings : Settings) : FileFilter :=
  FileFilter.ofFiles disk root settings (walk disk root settings)

namespace FileFilter

/-- The last rule set that says anything about a path decides. -/
def isExcluded (filter : FileFilter) (path : String) : Bool :=
  filter.ruleSets.reverse.findSome? (·.decide? path) == some .ignore

def namesOf (path : String) : List (List Char) :=
  (Path.components path.toList).filterMap fun component =>
    match component with
    | .name text => some text
    | _ => none

def admits (filter : FileFilter) (path : String) : Bool :=
  let names := namesOf path
  isSupported path && !names.isEmpty && !names.any startsWithDot
    && !names.dropLast.any (fun name => filter.ignoredDirectories.contains (String.ofList name))

def accepts (filter : FileFilter) (path : String) : Bool :=
  filter.admits path && !filter.isExcluded (Path.join filter.root path)

/-- Whether asking about a path is a panic: rule sets that say nothing of it are passed over until
one does. -/
def panicsOn (filter : FileFilter) (path : String) : Bool :=
  filter.admits path &&
    filter.ruleSets.reverse.findSome? (·.outcome? (Path.join filter.root path)) == some .panicked

end FileFilter

def candidates (root : String) (files : List FoundFile) : List String :=
  (files.filter (!FoundFile.isIgnoreFile ·)).filterMap fun file => do
    let path ← Path.relative? root (FoundFile.pathIn root file)
    if isSupported path then some path else none

def discover (disk : Disk) (root : String) (settings : Settings) : List String :=
  let files := walk disk root settings
  let filter := FileFilter.ofFiles disk root settings files
  ((candidates root files).filter filter.accepts).mergeSort fun a b => decide (a ≤ b)

end Workspace
end HandlerIndex
