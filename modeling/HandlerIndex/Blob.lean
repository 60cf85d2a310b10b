import HandlerIndex.Subscription
import HandlerIndex.Text.Utf8

/-!
The blob codec of the event store: the bytes in which the subscriptions of one event are kept. A
list is its length and then its members; a text is its length in bytes and then its bytes. A length
up to 250 is one byte, a longer one is a marker and two, four or eight bytes, the lowest first.
Reading takes a length in any of these forms, and ignores what follows the list. Left out is what
happens when there is no room for an announced text; that is a matter of the store in use.
-/
namespace HandlerIndex.Blob
open Text (Bytes TextFault)

inductive Measured where
  | list
  | text
  deriving DecidableEq, Repr

inductive Marker where
  | tooWide
  | reserved
  deriving DecidableEq, Repr

-- A piece of so many bytes was wanted. For a text, room for all of them is made before the first is
-- read.
inductive Fault where
  | endsEarly (wanted missing : Nat)
  | noLength (measured : Measured) (marker : Marker)
  | noText (fault : TextFault)
  deriving DecidableEq, Repr

def Measured.name : Measured → String
  | .list => "Usize"
  | .text => "U64"

def Marker.name : Marker → String
  | .tooWide => "U128"
  | .reserved => "Reserved"

def Fault.message : Fault → String
  | .endsEarly _ missing => "UnexpectedEnd \x7b additional: " ++ toString missing ++ " \x7d"
  | .noLength measured marker =>
    "InvalidIntegerType \x7b expected: " ++ measured.name ++ ", found: " ++ marker.name ++ " \x7d"
  | .noText fault =>
    let length := match fault.length with
      | some length => "Some(" ++ toString length ++ ")"
      | none => "None"
    "Utf8 \x7b inner: Utf8Error \x7b valid_up_to: " ++ toString fault.valid ++
      ", error_len: " ++ length ++ " \x7d \x7d"

def Fault.wanted : Fault → Nat
  | .endsEarly wanted _ => wanted
  | .noLength _ _ => 0
  | .noText _ => 0

def lowBytes : Nat → Nat → Bytes
  | 0, _ => []
  | width + 1, n => n.toUInt8 :: lowBytes width (n / 256)

def ofLowBytes : Bytes → Nat
  | [] => 0
  | byte :: rest => byte.toNat + 256 * ofLowBytes rest

def encodeLength (n : Nat) : Bytes :=
  if n ≤ 250 then [n.toUInt8]
  else if n < UInt16.size then 0xfb :: lowBytes 2 n
  else if n < UInt32.size then 0xfc :: lowBytes 4 n
  else 0xfd :: lowBytes 8 n

def encodeText (text : String) : Bytes :=
  let bytes := Text.toBytes text
  encodeLength bytes.length ++ bytes

def encodeSubscription (s : Subscription) : Bytes :=
  encodeText s.rawKey ++ encodeText s.targetEvent ++ encodeText s.serviceName ++
    encodeText s.signature

def encode (subscriptions : List Subscription) : Bytes :=
  encodeLength subscriptions.length ++ subscriptions.flatMap encodeSubscription

-- Each reader gives the part at the beginning of the bytes, and the bytes after it.

def readBytes (count : Nat) (bytes : Bytes) : Except Fault (Bytes × Bytes) :=
  let piece := bytes.take count
  if piece.length < count then .error (.endsEarly count (count - piece.length))
  else .ok (piece, bytes.drop count)

def readNumber (width : Nat) (bytes : Bytes) : Except Fault (Nat × Bytes) := do
  let (piece, rest) ← readBytes width bytes
  .ok (ofLowBytes piece, rest)

def readLength (measured : Measured) : Bytes → Except Fault (Nat × Bytes)
  | [] => .error (.endsEarly 1 1)
  | first :: rest =>
    if first ≤ 250 then .ok (first.toNat, rest)
    else if first = 0xfb then readNumber 2 rest
    else if first = 0xfc then readNumber 4 rest
    else if first = 0xfd then readNumber 8 rest
    else .error (.noLength measured (if first = 0xfe then .tooWide else .reserved))

def readText (bytes : Bytes) : Except Fault (String × Bytes) := do
  let (length, rest) ← readLength .text bytes
  let (piece, rest) ← readBytes length rest
  match Text.ofBytes piece with
  | .ok text => .ok (text, rest)
  | .error fault => .error (.noText fault)

def readSubscription (bytes : Bytes) : Except Fault (Subscription × Bytes) := do
  let (rawKey, rest) ← readText bytes
  let (targetEvent, rest) ← readText rest
  let (serviceName, rest) ← readText rest
  let (signature, rest) ← readText rest
  .ok (⟨rawKey, targetEvent, serviceName, signature⟩, rest)

-- A subscription takes at least four bytes, so a length that promises too much ends with the bytes.
def readSubscriptions : Nat → Bytes → Except Fault (List Subscription × Bytes)
  | 0, bytes => .ok ([], bytes)
  | count + 1, bytes => do
    let (first, rest) ← readSubscription bytes
    let (others, rest) ← readSubscriptions count rest
    .ok (first :: others, rest)

def decode (bytes : Bytes) : Except Fault (List Subscription) := do
  let (count, rest) ← readLength .list bytes
  let (subscriptions, _) ← readSubscriptions count rest
  .ok subscriptions

end HandlerIndex.Blob
