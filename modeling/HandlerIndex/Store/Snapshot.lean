import HandlerIndex.Store.Updates

/-!
The database file of the event store: the tables as the bytes of one file. Texts and lengths are
written as in a row's payload, and a number as eight bytes. A file that does not begin with the mark
of a snapshot, or is not one to its end, holds no tables; an empty file holds tables with nothing in
them. Left out is the layout of the database; a layout of this library's own stands in its place.
-/
namespace HandlerIndex.Store.Snapshot
open Text (Bytes)

def mark : Bytes := Text.toBytes "subscriber-index tables\n"

def encodeWord (word : Int64) : Bytes := Blob.lowBytes 8 word.toUInt64.toNat

def encodeCell : Cell → Bytes
  | .blob bytes => 0 :: (Blob.encodeLength bytes.length ++ bytes)
  | .text content => 1 :: Blob.encodeText content

def encodeList {α : Type} (encode : α → Bytes) (values : List α) : Bytes :=
  Blob.encodeLength values.length ++ values.flatMap encode

def encodeVersion (record : VersionRecord) : Bytes :=
  Blob.encodeText record.identity ++ encodeWord record.version

def encodeRow (row : Row) : Bytes :=
  Blob.encodeText row.file ++ Blob.encodeText row.event ++ encodeWord row.entryCount ++
    encodeCell row.payload

def encodeRecord (record : FileRecord) : Bytes :=
  Blob.encodeText record.file ++ Blob.encodeText record.hash ++ encodeWord record.indexedAt
    ++ encodeWord record.subscriptionCount

def encode (tables : Tables) : Bytes :=
  mark ++ encodeList encodeVersion tables.versions ++ encodeList encodeRow tables.rows
    ++ encodeList encodeRecord tables.files

def readWord (bytes : Bytes) : Except Blob.Fault (Int64 × Bytes) := do
  let (n, rest) ← Blob.readNumber 8 bytes
  .ok ((UInt64.ofNat n).toInt64, rest)

def readCell (bytes : Bytes) : Except Blob.Fault (Cell × Bytes) := do
  match bytes with
  | 1 :: rest =>
    let (content, rest) ← Blob.readText rest
    .ok (.text content, rest)
  | _ =>
    let (length, rest) ← Blob.readLength .list (bytes.drop 1)
    let (piece, rest) ← Blob.readBytes length rest
    .ok (.blob piece, rest)

def readMany {α : Type} (read : Bytes → Except Blob.Fault (α × Bytes)) :
    Nat → Bytes → Except Blob.Fault (List α × Bytes)
  | 0, bytes => .ok ([], bytes)
  | count + 1, bytes => do
    let (first, rest) ← read bytes
    let (others, rest) ← readMany read count rest
    .ok (first :: others, rest)

def readList {α : Type} (read : Bytes → Except Blob.Fault (α × Bytes)) (bytes : Bytes) :
    Except Blob.Fault (List α × Bytes) := do
  let (count, rest) ← Blob.readLength .list bytes
  readMany read count rest

def readVersion (bytes : Bytes) : Except Blob.Fault (VersionRecord × Bytes) := do
  let (identity, rest) ← Blob.readText bytes
  let (version, rest) ← readWord rest
  .ok (⟨identity, version⟩, rest)

def readRow (bytes : Bytes) : Except Blob.Fault (Row × Bytes) := do
  let (file, rest) ← Blob.readText bytes
  let (event, rest) ← Blob.readText rest
  let (entryCount, rest) ← readWord rest
  let (payload, rest) ← readCell rest
  .ok (⟨file, event, entryCount, payload⟩, rest)

def readRecord (bytes : Bytes) : Except Blob.Fault (FileRecord × Bytes) := do
  let (file, rest) ← Blob.readText bytes
  let (hash, rest) ← Blob.readText rest
  let (indexedAt, rest) ← readWord rest
  let (subscriptionCount, rest) ← readWord rest
  .ok (⟨file, hash, indexedAt, subscriptionCount⟩, rest)

def readTables (bytes : Bytes) : Except Blob.Fault (Tables × Bytes) := do
  let (versions, rest) ← readList readVersion bytes
  let (rows, rest) ← readList readRow rest
  let (files, rest) ← readList readRecord rest
  .ok (⟨versions, rows, files⟩, rest)

def decode (bytes : Bytes) : Place :=
  if bytes.isEmpty then .nothing
  else if mark.isPrefixOf bytes then
    match readTables (bytes.drop mark.length) with
    | .ok (tables, []) => .database tables
    | _ => .otherFile
  else .otherFile

end HandlerIndex.Store.Snapshot
