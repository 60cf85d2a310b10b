import HandlerIndex.Ignore.Glob
import HandlerIndex.Path
import HandlerIndex.Text.Blank

/-!
The ignore files of the file filter, with one rule to a line. The last rule that matches a path
decides about it; if none does, the rules are asked about the directory above it, and so on up to
the directory of the file itself. Left out are the ignore files above the workspace and those of the
user, which the filter never asks.
-/
namespace HandlerIndex.Ignore
open Text (Bytes)

inductive Verdict where
  | ignore
  | keep
  deriving DecidableEq, Repr

structure Rule where
  verdict : Verdict
  directoriesOnly : Bool
  glob : Glob
  deriving DecidableEq, Repr

structure RuleSet where
  base : String
  rules : List Rule
  deriving DecidableEq, Repr

def trimLine (line : List Char) : List Char :=
  if [' ', '\\'].isPrefixOf line.reverse then line else Text.trimRight line

/-- What a line says before its pattern: whether it keeps what it matches, and whether it is bound
to the directory of the file. -/
def readMarks : List Char → Verdict × Bool × List Char
  | '\\' :: '!' :: rest => (.ignore, false, '!' :: rest)
  | '\\' :: '#' :: rest => (.ignore, false, '#' :: rest)
  | '!' :: '/' :: rest => (.keep, true, rest)
  | '!' :: rest => (.keep, false, rest)
  | '/' :: rest => (.ignore, true, rest)
  | rest => (.ignore, false, rest)

def readEnd (pattern : List Char) : Bool × List Char :=
  match pattern.reverse with
  | '/' :: '\\' :: rest => (true, rest.reverse)
  | '/' :: rest => (true, rest.reverse)
  | _ => (false, pattern)

-- A pattern without a slash matches at any depth. One that ends in a slash and two stars matches
-- what is inside a directory, and not the directory.
def wholePattern (bound : Bool) (pattern : List Char) : List Char :=
  let free := !bound && !pattern.contains '/'
  let placed := if free && pattern != ['*', '*'] then ['*', '*', '/'] ++ pattern else pattern
  if ['*', '*', '/'].isPrefixOf placed.reverse then placed ++ ['/', '*'] else placed

/-- The rule of a line. Comments, empty lines and patterns that cannot be read give none. -/
def Rule.ofLine? (line : List Char) : Option Rule :=
  let line := if line.head? = some '#' then [] else trimLine line
  if line = [] then none
  else do
    let (verdict, bound, pattern) := readMarks line
    let (directoriesOnly, pattern) := readEnd pattern
    let glob ← Glob.parse? (wholePattern bound pattern)
    some { verdict := verdict, directoriesOnly := directoriesOnly, glob := glob }

def splitLines (content : Bytes) : List Bytes :=
  content.foldr
    (fun byte lines =>
      match lines with
      | [] => [[byte]]
      | line :: rest => if byte = 10 then [] :: line :: rest else (byte :: line) :: rest)
    [[]]

def dropMark (line : List Char) : List Char := line.dropWhile (· == '\ufeff')

/-- The lines of a file, up to the first that is no text. A byte order mark before the first is
dropped. -/
def readLines (content : Bytes) : List (List Char) :=
  let decoded := (splitLines content).map fun line => (Text.ofBytes line).toOption
  let lines := (decoded.takeWhile Option.isSome).filterMap fun line => line.map String.toList
  match lines with
  | [] => []
  | first :: rest => dropMark first :: rest

def readRules (content : Bytes) : List Rule := (readLines content).filterMap Rule.ofLine?

def Rule.applies (path : List Char) (isDirectory : Bool) (rule : Rule) : Bool :=
  (!rule.directoriesOnly || isDirectory) && rule.glob.matches (Text.toBytes (String.ofList path))

def decide? (rules : List Rule) (path : List Char) (isDirectory : Bool) : Option Verdict :=
  (rules.reverse.find? (Rule.applies path isDirectory)).map (·.verdict)

/-- What the rules say of a file, or of the nearest directory above it of which they say
anything. -/
def decideBelow? (rules : List Rule) (path : List Char) : Option Verdict :=
  (decide? rules path false).or ((Path.parents path).findSome? fun above =>
    decide? rules above true)

def withoutDot : List Char → List Char
  | '.' :: '/' :: rest => rest
  | path => path

-- The directory has lost the dot that begins it, and so does the path. A mere name is left as it
-- is, and so is a path that does not begin with the text of the directory.
def withoutBase (base path : List Char) : List Char :=
  let path := withoutDot path
  if base = ['.'] ∨ '/' ∉ path ∨ base.isPrefixOf path = false then path
  else
    match path.drop base.length with
    | '/' :: rest => rest
    | rest => rest

namespace RuleSet

def ofDirectory (directory : List Char) (rules : List Rule) : RuleSet :=
  ⟨String.ofList (withoutDot directory), rules⟩

-- Components are compared, and the dot that begins a relative path is one of them.
def covers (set : RuleSet) (path : String) : Bool :=
  (Path.components set.base.toList).isPrefixOf (Path.components path.toList)

def decide? (set : RuleSet) (path : String) : Option Verdict :=
  if set.covers path then decideBelow? set.rules (withoutBase set.base.toList path.toList) else none

/-- Asking rules about a path that does not begin with the text of their directory and one slash is
a panic. -/
def panicsOn (set : RuleSet) (path : String) : Bool :=
  set.covers path && !set.rules.isEmpty && Path.isAbsolute (withoutBase set.base.toList path.toList)

inductive Outcome where
  | told (verdict : Verdict)
  | panicked
  deriving DecidableEq, Repr

def outcome? (set : RuleSet) (path : String) : Option Outcome :=
  if set.panicsOn path then some .panicked else (set.decide? path).map .told

end RuleSet
end HandlerIndex.Ignore
