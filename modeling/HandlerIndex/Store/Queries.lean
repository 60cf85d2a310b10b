import HandlerIndex.Store.Tables
import HandlerIndex.Text.Lowercase
import HandlerIndex.Text.Occurrence

/-!
The queries of the event store. Answers that list files or events are in the order of their names. A
stored count is a signed word; in an answer it is the unsigned word of the same bits. Left out is
the database behind them; its orders and text functions are stated as far as they show.
-/
namespace HandlerIndex.Store
open Text (Bytes)

structure IndexedFile where
  file : String
  hash : String
  indexedAt : Int64
  subscriptionCount : UInt64
  deriving DecidableEq, Repr

structure EventSummary where
  event : String
  subscriptionCount : UInt64
  fileCount : UInt64
  deriving DecidableEq, Repr

def addWord (total : Option Int64) (word : Int64) : Option Int64 := do
  let sum := (← total).toInt + word.toInt
  if Int64.minValue.toInt ≤ sum ∧ sum ≤ Int64.maxValue.toInt then some (Int64.ofInt sum) else none

/-- The sum of words, as long as no sum on the way leaves their range. -/
def sumWords? (words : List Int64) : Option Int64 := words.foldl addWord (some 0)

def sumWords (words : List Int64) : Except Fault Int64 :=
  match sumWords? words with
  | some sum => .ok sum
  | none => .error .sumTooLarge

def Cell.bytes : Cell → Except Fault Bytes
  | .blob bytes => .ok bytes
  | .text _ => .error .notABlob

def decodeBlob (bytes : Bytes) : Except Fault (List Subscription) :=
  match Blob.decode bytes with
  | .ok subscriptions => .ok subscriptions
  | .error fault => .error (.undecodable fault)

def FileRecord.view (record : FileRecord) : IndexedFile where
  file := record.file
  hash := record.hash
  indexedAt := record.indexedAt
  subscriptionCount := record.subscriptionCount.toUInt64

/-- The blobs of some rows, each with a name of the row. All are fetched before the first is
decoded. -/
def fetch (name : Row → String) (rows : List Row) : Except Fault (List (String × Bytes)) :=
  rows.mapM fun row => do .ok (name row, ← row.payload.bytes)

def decodeEach (blobs : List (String × Bytes)) : Except Fault (List (String × List Subscription)) :=
  blobs.mapM fun (name, bytes) => do .ok (name, ← decodeBlob bytes)

namespace Tables

def eventRows (tables : Tables) (event : String) : List Row :=
  (tables.rows.filter (·.event == event)).mergeSort fun a b => decide (a.file ≤ b.file)

def valuesFor (tables : Tables) (event : String) :
    Except Fault (List (String × List Subscription)) := do
  decodeEach (← fetch (·.file) (tables.eventRows event))

def lookup (tables : Tables) (event : String) : Except Fault (List (String × Subscription)) := do
  let fragments ← tables.valuesFor event
  .ok (fragments.flatMap fun (file, subscriptions) => subscriptions.map fun s => (file, s))

def fileRows (tables : Tables) (file : String) : List Row :=
  (tables.rowsOf file).mergeSort fun a b => decide (a.event ≤ b.event)

def storedGroups (tables : Tables) (file : String) : Except Fault Payload := do
  let groups ← decodeEach (← fetch (·.event) (tables.fileRows file))
  .ok (Payload.ofGroups (groups.map fun (event, subscriptions) => ⟨event, subscriptions⟩))

-- Whether the file is recorded and what its rows hold are two questions, and other changes of the
-- tables may come between them.
def filePayloadBetween (first second : Tables) (file : String) : Except Fault (Option Payload) :=
  match first.fileRecord? file with
  | none => .ok none
  | some _ => return some (← second.storedGroups file)

def filePayload (tables : Tables) (file : String) : Except Fault (Option Payload) :=
  filePayloadBetween tables tables file

def indexedFile? (tables : Tables) (file : String) : Option IndexedFile :=
  (tables.fileRecord? file).map FileRecord.view

def indexedFiles (tables : Tables) : List IndexedFile :=
  (tables.files.mergeSort fun a b => decide (a.file ≤ b.file)).map FileRecord.view

/-- Whether a file has to be read again: it is not recorded, or with another hash. -/
def needsReindex (tables : Tables) (file hash : String) : Bool :=
  match tables.fileRecord? file with
  | some record => record.hash != hash
  | none => true

/-- Whether an event's name contains a text, if the case of the letters A to Z does not count. -/
def nameMatches (pattern event : String) : Bool :=
  Text.occursIn (Text.foldAsciiChars pattern.toList) (Text.foldAsciiChars event.toList)

def eventsMatching (tables : Tables) (pattern : String) : List String :=
  (((tables.rows.map (·.event)).filter (nameMatches pattern)).eraseDups).mergeSort
    fun a b => decide (a ≤ b)

def summary (tables : Tables) (event : String) : Except Fault (EventSummary × Int64) := do
  let rows := tables.rows.filter (·.event == event)
  let fileCount := Int64.ofNat rows.length
  let sum ← sumWords (rows.map (·.entryCount))
  .ok (⟨event, sum.toUInt64, fileCount.toUInt64⟩, fileCount)

-- A sum that is too large fails the whole answer, also when its event is in too few files.
def searchEvents (tables : Tables) (pattern : String) (minFiles : UInt64) :
    Except Fault (List EventSummary) := do
  let summaries ← (tables.eventsMatching pattern).mapM tables.summary
  .ok ((summaries.filter fun (_, files) => decide (minFiles.toInt64 ≤ files)).map (·.1))

def subscriptionTotal (tables : Tables) : Except Fault UInt64 := do
  .ok (← sumWords (tables.files.map (·.subscriptionCount))).toUInt64

def fileTotal (tables : Tables) : Nat := tables.files.length

def eventTotal (tables : Tables) : Nat := (tables.rows.map (·.event)).eraseDups.length

end Tables
end HandlerIndex.Store
