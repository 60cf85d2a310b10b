import HandlerIndex.Blob
import HandlerIndex.Payload

/-!
The tables of the event store: which version of the format they hold, one row for each event of a
file, and one record for each file. Rows stand in the order in which they were added; a file has one
record, and one row for an event. Left out are the numbers by which a database tells rows apart, and
failures of the database itself.
-/
namespace HandlerIndex.Store
open Text (Bytes)

/-- The value of a row's payload column. Only an outside change makes it a text. -/
inductive Cell where
  | blob (bytes : Bytes)
  | text (content : String)
  deriving DecidableEq, Repr

structure Row where
  file : String
  event : String
  entryCount : Int64
  payload : Cell
  deriving DecidableEq, Repr

structure FileRecord where
  file : String
  hash : String
  indexedAt : Int64
  subscriptionCount : Int64
  deriving DecidableEq, Repr

structure VersionRecord where
  identity : String
  version : Int64
  deriving DecidableEq, Repr

structure Tables where
  versions : List VersionRecord
  rows : List Row
  files : List FileRecord
  deriving DecidableEq, Repr

def identity : String := "shopware.init_resource_service_index"

/-- The version of the format. Rows of any other version are dropped when the tables are opened. -/
def currentVersion : Int64 := 1

inductive Fault where
  | unreachable
  | notADatabase
  | sumTooLarge
  | notABlob
  | undecodable (fault : Blob.Fault)
  | poisoned
  deriving DecidableEq, Repr

def Fault.message : Fault → String
  | .unreachable => "IO error: Not a directory (os error 20)"
  | .notADatabase => "SQLite error: file is not a database"
  | .sumTooLarge => "SQLite error: integer overflow"
  | .notABlob => "SQLite error: Invalid column type Text at index: 1, name: payload"
  | .undecodable fault => "Decode error: " ++ fault.message
  | .poisoned => "Index lock poisoned"

def Fault.wanted : Fault → Nat
  | .undecodable fault => fault.wanted
  | _ => 0

namespace Tables

def empty : Tables := ⟨[], [], []⟩

def rowsOf (tables : Tables) (file : String) : List Row := tables.rows.filter (·.file == file)

def fileRecord? (tables : Tables) (file : String) : Option FileRecord :=
  tables.files.find? (·.file == file)

def version? (tables : Tables) : Option Int64 :=
  (tables.versions.find? (·.identity == identity)).map (·.version)

def eraseRows (tables : Tables) (file : String) : Tables :=
  { tables with rows := tables.rows.filter (·.file != file) }

def eraseRecord (tables : Tables) (file : String) : Tables :=
  { tables with files := tables.files.filter (·.file != file) }

def clearRows (tables : Tables) : Tables := { tables with rows := [] }

def clearFiles (tables : Tables) : Tables := { tables with files := [] }

/-- Records the current version, and leaves what is recorded under other names. -/
def recordVersion (tables : Tables) : Tables :=
  { tables with
    versions := tables.versions.filter (·.identity != identity) ++ [⟨identity, currentVersion⟩] }

end Tables
end HandlerIndex.Store
