import HandlerIndex.Workspace.Index

/-!
The index watcher, which keeps the index in step with the disk. Changes of paths that belong in the
index are collected, and applied together once the disk is quiet: a path that is there is indexed,
one that is not is forgotten. A change of an ignore file makes a new filter for it and for the
changes after it. Left out are how the system reports a change, and how long a disk has to be quiet.
-/
namespace HandlerIndex.Workspace
open Store (Tables)

structure Watcher where
  filter : FileFilter
  pending : List String

namespace Watcher
variable (index : Index)

def start (disk : Disk) : Except Fault Watcher :=
  if disk.has index.root then
    .ok { filter := FileFilter.load disk index.root index.settings, pending := [] }
  else .error .watch

def accepted (filter : FileFilter) (paths : List String) : List String :=
  (paths.filterMap index.relative?).filter filter.accepts

def notice (disk : Disk) (watcher : Watcher) (paths : List String) : Watcher :=
  let filter :=
    if paths.any Path.isIgnoreFile then FileFilter.load disk index.root index.settings
    else watcher.filter
  { filter := filter, pending := watcher.pending ++ accepted index filter paths }

-- A file that cannot be indexed leaves the tables as they are.
def applyChange (disk : Disk) (now : Int64) (tables : Tables) (file : String) : Tables :=
  if disk.has (index.resolve file) then
    match index.indexFile disk now tables file with
    | .ok (_, tables) => tables
    | .error _ => tables
  else tables.remove file

/-- Applies changes, each path once and in the order of the paths. -/
def applyChanges (disk : Disk) (now : Int64) (tables : Tables) (paths : List String) : Tables :=
  (paths.eraseDups.mergeSort fun a b => decide (a ≤ b)).foldl (applyChange index disk now) tables

def flush (disk : Disk) (now : Int64) (watcher : Watcher) (tables : Tables) : Watcher × Tables :=
  ({ watcher with pending := [] }, applyChanges index disk now tables watcher.pending)

end Watcher
end HandlerIndex.Workspace
