import HandlerIndex.Text.Utf8

/-!
The matcher of patterns for paths, behind the file filter. A pattern is read into tokens, and the
tokens stand for a finite choice of plain patterns, in which each part takes one byte of a set or
any number of them. A pattern matches a path if one of its plain patterns takes all of the path's
bytes. Left out are the matcher's own options, which ignore files never set, and how it is compiled.
-/
namespace HandlerIndex.Ignore
open Text (Bytes)

structure ByteSet where
  negated : Bool
  ranges : List (UInt8 × UInt8)
  deriving DecidableEq, Repr

namespace ByteSet

def any : ByteSet := ⟨true, []⟩

def single (byte : UInt8) : ByteSet := ⟨false, [(byte, byte)]⟩

def slash : ByteSet := single 0x2f

def notSlash : ByteSet := ⟨true, [(0x2f, 0x2f)]⟩

def contains (set : ByteSet) (byte : UInt8) : Bool :=
  set.ranges.any (fun (low, high) => low ≤ byte && byte ≤ high) != set.negated

end ByteSet

inductive Atom where
  | one (set : ByteSet)
  | many (set : ByteSet)
  deriving DecidableEq, Repr

def takes : List Atom → Bytes → Bool
  | [], [] => true
  | [], _ :: _ => false
  | .one _ :: _, [] => false
  | .one set :: atoms, byte :: rest => set.contains byte && takes atoms rest
  | .many _ :: atoms, [] => takes atoms []
  | .many set :: atoms, byte :: rest =>
    takes atoms (byte :: rest) || (set.contains byte && takes (.many set :: atoms) rest)
termination_by atoms bytes => atoms.length + bytes.length

/-- A part of a pattern. `anyAbove` stands for two stars and a slash at the beginning, `anyBetween`
for two stars between slashes and `anyBelow` for a slash and two stars at the end. -/
inductive Token where
  | literal (c : Char)
  | anyOne
  | anyRun
  | anyAbove
  | anyBetween
  | anyBelow
  | oneOf (negated : Bool) (ranges : List (Char × Char))
  | choice (branches : List (List Token))

def charBytes (c : Char) : Bytes := Text.toBytes (String.singleton c)

-- A path is matched byte by byte. In a range of characters that take several bytes, only the bytes
-- next to the dash are its ends; the others stand for themselves.
def rangeBytes (range : Char × Char) : List (UInt8 × UInt8) :=
  let (low, high) := range
  if low = high then (charBytes low).map fun byte => (byte, byte)
  else
    match (charBytes low).getLast?, charBytes high with
    | some last, first :: rest =>
      (charBytes low).dropLast.map (fun byte => (byte, byte)) ++
        (last, first) :: rest.map fun byte => (byte, byte)
    | _, _ => []

def appendEach (beginnings ways : List (List Atom)) : List (List Atom) :=
  beginnings.flatMap fun beginning => ways.map fun way => beginning ++ way

mutual

def expandToken : Token → List (List Atom)
  | .literal c => [(charBytes c).map fun byte => .one (.single byte)]
  | .anyOne => [[.one .notSlash]]
  | .anyRun => [[.many .notSlash]]
  | .anyAbove => [[], [.one .slash], [.many .any, .one .slash]]
  | .anyBetween => [[.one .slash], [.one .slash, .many .any, .one .slash]]
  | .anyBelow => [[.one .slash, .many .any]]
  | .oneOf negated ranges => [[.one ⟨negated, ranges.flatMap rangeBytes⟩]]
  | .choice branches =>
    -- A branch with nothing in it is none at all.
    match expandBranches branches with
    | [] => [[]]
    | ways => ways

def expandTokens : List Token → List (List Atom)
  | [] => [[]]
  | token :: tokens => appendEach (expandToken token) (expandTokens tokens)

def expandBranches : List (List Token) → List (List Atom)
  | [] => []
  | branch :: branches =>
    let ways := expandTokens branch
    (if ways = [[]] then [] else ways) ++ expandBranches branches

end

structure Glob where
  ways : List (List Atom)
  deriving DecidableEq, Repr

def Glob.ofTokens : List Token → Glob
  | [.anyAbove] => ⟨[[.many .any]]⟩
  | tokens => ⟨expandTokens tokens⟩

def Glob.matches (glob : Glob) (path : Bytes) : Bool := glob.ways.any fun way => takes way path

/-! Reading patterns. -/

inductive ClassReading where
  | closed (ranges : List (Char × Char)) (rest : List Char)
  | unclosed
  | reversed

-- The ranges are collected in reverse. A bracket or a dash at the beginning stands for itself, and
-- so does a dash at the end.
def readRanges (atStart inRange : Bool) : List (Char × Char) → List Char → ClassReading
  | _, [] => .unclosed
  | ranges, c :: rest =>
    if c = ']' ∧ !atStart then
      .closed (if inRange then ('-', '-') :: ranges else ranges).reverse rest
    else if c = '-' ∧ !atStart ∧ !inRange then readRanges false true ranges rest
    else if inRange then
      match ranges with
      | (low, _) :: ranges =>
        if c < low then .reversed else readRanges false false ((low, c) :: ranges) rest
      | [] => .reversed
    else readRanges false false ((c, c) :: ranges) rest

def readClass : List Char → Bool × ClassReading
  | '!' :: rest | '^' :: rest => (true, readRanges true false [] rest)
  | rest => (false, readRanges true false [] rest)

/-- What has been read of a pattern. The tokens of the branch that is being read stand in
reverse; each group that is open has the tokens before it and the branches that are complete, in
reverse too. -/
structure Reading where
  current : List Token
  groups : List (List Token × List (List Token))
  before : Option Char
  plainBrackets : Bool

namespace Reading

def add (reading : Reading) (token : Token) (last : Char) : Reading :=
  { reading with current := token :: reading.current, before := some last }

def inGroup (reading : Reading) : Bool := !reading.groups.isEmpty

def join (reading : Reading) (joined : Token) (last : Char) : Reading :=
  match reading.current with
  | .anyAbove :: _ | .anyBelow :: _ => { reading with before := some last }
  | _ :: tokens => { reading with current := joined :: tokens, before := some last }
  | [] => reading.add joined last

def beginsSegment (reading : Reading) : Bool :=
  reading.before == some '/'
    || (reading.inGroup && (reading.before == some ',' || reading.before == some '\x7b'))

def addStar (reading : Reading) (rest : List Char) : Reading × List Char :=
  match rest with
  | '*' :: rest =>
    let twoRuns := ((reading.add .anyRun '*').add .anyRun '*', rest)
    if reading.current.isEmpty then
      match rest with
      | [] => (reading.add .anyAbove '*', [])
      | '/' :: rest => (reading.add .anyAbove '/', rest)
      | _ => twoRuns
    else if reading.beginsSegment then
      match rest with
      | [] => (reading.join .anyBelow '*', [])
      | '/' :: rest => (reading.join .anyBetween '/', rest)
      | c :: _ =>
        if reading.inGroup && (c == ',' || c == '\x7d') then (reading.join .anyBelow '*', rest)
        else twoRuns
    else twoRuns
  | rest => (reading.add .anyRun '*', rest)

def openGroup (reading : Reading) : Reading :=
  { reading with
    current := [], groups := (reading.current, []) :: reading.groups, before := some '\x7b' }

def nextBranch (reading : Reading) : Reading :=
  match reading.groups with
  | [] => reading.add (.literal ',') ','
  | (tokens, branches) :: groups =>
    { reading with
      current := []
      groups := (tokens, reading.current.reverse :: branches) :: groups
      before := some ',' }

def closeGroup? (reading : Reading) : Option Reading :=
  match reading.groups with
  | [] => none
  | (tokens, branches) :: groups =>
    let group := Token.choice (reading.current.reverse :: branches).reverse
    some { reading with current := group :: tokens, groups := groups, before := some '\x7d' }

end Reading

-- Every call reads at least one character, so the length of the pattern is fuel enough.
/-- Reads a pattern to its end. A bracket that is never closed stands for itself. -/
def readTokens : Nat → Reading → List Char → Option (List Token)
  | _, reading, [] => if reading.inGroup then none else some reading.current.reverse
  | 0, _, _ => none
  | fuel + 1, reading, c :: rest =>
    match c with
    | '?' => readTokens fuel (reading.add .anyOne '?') rest
    | '*' =>
      let (reading, rest) := reading.addStar rest
      readTokens fuel reading rest
    | '[' =>
      if reading.plainBrackets then readTokens fuel (reading.add (.literal '[') '[') rest
      else
        match readClass rest with
        | (negated, .closed ranges rest) =>
          readTokens fuel (reading.add (.oneOf negated ranges) ']') rest
        | (_, .unclosed) =>
          readTokens fuel { reading.add (.literal '[') '[' with plainBrackets := true } rest
        | (_, .reversed) => none
    | '\x7b' => readTokens fuel reading.openGroup rest
    | '\x7d' => do readTokens fuel (← reading.closeGroup?) rest
    | ',' => readTokens fuel reading.nextBranch rest
    | '\\' =>
      match rest with
      | [] => none
      | c :: rest => readTokens fuel (reading.add (.literal c) c) rest
    | c => readTokens fuel (reading.add (.literal c) c) rest

def Glob.parse? (pattern : List Char) : Option Glob := do
  let start : Reading := { current := [], groups := [], before := none, plainBrackets := false }
  some (Glob.ofTokens (← readTokens pattern.length start pattern))

end HandlerIndex.Ignore
