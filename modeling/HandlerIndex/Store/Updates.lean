import HandlerIndex.Store.Tables

/-!
The updates of the event store. Storing and removing a file, and dropping what another version left,
are one commit each. Dropping everything is two: the rows go first, then the records. Left out are
failures of the database in the middle of a commit.
-/
namespace HandlerIndex.Store

inductive Commit where
  | put (now : Int64) (file hash : String) (payload : Payload)
  | remove (file : String)
  | clearRows
  | clearFiles
  | startOver
  deriving DecidableEq

def payloadRows (file : String) (payload : Payload) : List Row :=
  payload.groups.map fun group =>
    { file := file
      event := group.event
      entryCount := Int64.ofNat group.subscriptions.length
      payload := .blob (Blob.encode group.subscriptions) }

namespace Tables

/-- Replaces everything that is stored for a file. A payload without events still leaves a
record. -/
def put (tables : Tables) (now : Int64) (file hash : String) (payload : Payload) : Tables :=
  let cleared := (tables.eraseRows file).eraseRecord file
  { cleared with
    rows := cleared.rows ++ payloadRows file payload
    files := cleared.files ++ [⟨file, hash, now, Int64.ofNat payload.subscriptionCount⟩] }

def remove (tables : Tables) (file : String) : Tables := (tables.eraseRows file).eraseRecord file

def isRecorded (tables : Tables) (file : String) : Bool := (tables.fileRecord? file).isSome

def apply (tables : Tables) : Commit → Tables
  | .put now file hash payload => tables.put now file hash payload
  | .remove file => tables.remove file
  | .clearRows => tables.clearRows
  | .clearFiles => tables.clearFiles
  | .startOver => tables.clearRows.clearFiles.recordVersion

def applyAll (tables : Tables) (commits : List Commit) : Tables := commits.foldl apply tables

end Tables

/-- The commits that drop every entry. The recorded version stays. -/
def invalidation : List Commit := [.clearRows, .clearFiles]

def Tables.invalidateAll (tables : Tables) : Tables := tables.applyAll invalidation

def opening (found : Option Int64) : List Commit :=
  if found = some currentVersion then [] else [.startOver]

def Tables.opened (tables : Tables) : Tables := tables.applyAll (opening tables.version?)

inductive Operation where
  | put (now : Int64) (file hash : String) (payload : Payload)
  | remove (file : String)
  | invalidate
  | reopen
  deriving DecidableEq

inductive Answer where
  | stored (subscriptions : Nat)
  | removed (recorded : Bool)
  | done
  deriving DecidableEq, Repr

def Tables.perform (tables : Tables) : Operation → Answer × Tables
  | .put now file hash payload =>
    (.stored payload.subscriptionCount, tables.put now file hash payload)
  | .remove file => (.removed (tables.isRecorded file), tables.remove file)
  | .invalidate => (.done, tables.invalidateAll)
  | .reopen => (.done, tables.opened)

inductive Place where
  | nothing
  | database (tables : Tables)
  | directory
  | otherFile
  | belowFile

/-- Opens the tables kept at a place, or new ones if nothing is there. -/
def Place.load : Place → Except Fault Tables
  | .nothing => .ok Tables.empty.opened
  | .database tables => .ok tables.opened
  | .directory => .error .notADatabase
  | .otherFile => .error .notADatabase
  | .belowFile => .error .unreachable

end HandlerIndex.Store
