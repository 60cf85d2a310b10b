import HandlerIndex.Path
import HandlerIndex.Text.Digest

/-!
The default database, where the index of a workspace is kept: one file for each workspace, in the
user's cache directory. The file's name begins with the workspace's own name and ends with a digest
of its path. The digest is this library's own: only that workspaces have different ones matters.
-/
namespace HandlerIndex

def applicationName : String := "subscriber-index"

structure DatabaseLocation where
  directory : String
  name : String
  digest : UInt64
  deriving DecidableEq, Repr

namespace DatabaseLocation

def cacheHome (home : String) (cacheSetting : Option String) : String :=
  match cacheSetting with
  | some directory =>
    if Path.isAbsolute directory.toList then directory else Path.join home ".cache"
  | none => Path.join home ".cache"

-- The components enter the digest with their names alone, so a slash too many or an inner dot
-- changes nothing.
def digestOf (root : String) : UInt64 :=
  Text.digestTexts ((Path.components root.toList).filterMap fun component =>
    match component with
    | .root => none
    | .current => some ['.']
    | .parent => some ['.', '.']
    | .name text => some text)

def ofWorkspace (home : String) (cacheSetting : Option String) (root : String) :
    DatabaseLocation where
  directory := Path.join (cacheHome home cacheSetting) applicationName
  name := ((Path.fileName? root.toList).map String.ofList).getD "workspace"
  digest := digestOf root

def fileName (location : DatabaseLocation) : String :=
  location.name ++ "-" ++ Text.hexText location.digest ++ ".db"

end DatabaseLocation
end HandlerIndex
