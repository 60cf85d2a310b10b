import HandlerIndex.Text.Lowercase

/-!
Paths as texts, as the file filter and the index service compare them. A path is compared by its
components: repeated slashes, a slash at the end and inner dots do not count, while `..` does, and
so does a dot that begins a relative path. Taking a path relative to another one keeps the text of
what is left. Left out are paths that are no texts.
-/
namespace HandlerIndex.Path

/-- The parts of a text between slashes; a text of n slashes has n + 1. -/
def segments (path : List Char) : List (List Char) :=
  path.foldr
    (fun c parts =>
      match parts with
      | [] => [[c]]
      | part :: rest => if c = '/' then [] :: part :: rest else (c :: part) :: rest)
    [[]]

def joinSegments (parts : List (List Char)) : List Char :=
  ['/'].intercalate parts

def isAbsolute (path : List Char) : Bool := path.head? == some '/'

inductive Component where
  | root
  | current
  | parent
  | name (text : List Char)
  deriving DecidableEq, Repr

def ofSegment (segment : List Char) : Component :=
  if segment = ['.'] then .current
  else if segment = ['.', '.'] then .parent
  else .name segment

def isNeutral (segment : List Char) : Bool := segment == [] || segment == ['.']

def bodyComponents (parts : List (List Char)) : List Component :=
  (parts.filter (!isNeutral ·)).map ofSegment

def components (path : List Char) : List Component :=
  if isAbsolute path then .root :: bodyComponents (segments path)
  else
    match segments path with
    | ['.'] :: rest => .current :: bodyComponents rest
    | parts => bodyComponents parts

def fileName? (path : List Char) : Option (List Char) :=
  match (components path).getLast? with
  | some (.name text) => some text
  | _ => none

def dropComponents : Nat → List (List Char) → List (List Char)
  | _, [] => []
  | 0, segment :: rest => if isNeutral segment then dropComponents 0 rest else segment :: rest
  | count + 1, segment :: rest =>
    if isNeutral segment then dropComponents (count + 1) rest else dropComponents count rest

def dropNeutralEnd (parts : List (List Char)) : List (List Char) :=
  (parts.reverse.dropWhile isNeutral).reverse

-- The root and a leading dot are components without a name, so they are taken off before the named
-- ones are counted.
/-- The text of the path below a base, if the base's components begin it. -/
def stripBase? (base path : List Char) : Option (List Char) :=
  let above := components base
  if above.isPrefixOf (components path) then
    if above = [] then
      match dropNeutralEnd (segments path), path with
      | [], '/' :: _ => some ['/']
      | [], '.' :: _ => some ['.']
      | parts, _ => some (joinSegments parts)
    else
      let named := above.filter fun c => c != .root && c != .current
      some (joinSegments (dropNeutralEnd (dropComponents named.length (segments path))))
  else none

def relative? (root path : String) : Option String :=
  (stripBase? root.toList path.toList).map fun rest =>
    String.ofList (rest.map fun c => if c = '\\' then '/' else c)

def join (directory path : String) : String :=
  if isAbsolute path.toList ∨ directory = "" then path
  else if directory.toList.getLast? = some '/' then directory ++ path
  else directory ++ "/" ++ path

-- What is left ends in no slash and no dot, unless it is the root or the dot that begins the path.
def directory (path : List Char) : List Char :=
  match dropNeutralEnd (segments path).dropLast, path with
  | [], '/' :: _ => ['/']
  | [], '.' :: '/' :: _ => ['.']
  | parts, _ => joinSegments parts

/-- Whether the segment at a place stands for a component: a dot does so only where a path
begins. -/
def countsAt (place : Nat) (segment : List Char) : Bool :=
  !isNeutral segment || (place == 0 && segment == ['.'])

/-- The paths above a relative one, the nearest first and the empty one last. -/
def parents (path : List Char) : List (List Char) :=
  let parts := dropNeutralEnd (segments path)
  let ends := (List.range parts.length).filter fun count =>
    match count with
    | 0 => true
    | place + 1 => (parts[place]?).any (countsAt place)
  ends.reverse.map fun count => joinSegments (parts.take count)

def extension? (path : List Char) : Option (List Char) :=
  if path.contains '.' then some (path.reverse.takeWhile (· != '.')).reverse else none

def isIgnoreFile (path : String) : Bool := fileName? path.toList == some ".gitignore".toList

end HandlerIndex.Path

namespace HandlerIndex

inductive Language where
  | php
  deriving DecidableEq, Repr

def Language.name : Language → String
  | .php => "PHP"

def Language.ofPath? (path : String) : Option Language := do
  let ending := Text.lowercaseChars (← Path.extension? path.toList)
  if ending = "php".toList ∨ ending = "phtml".toList then some .php else none

def isSupported (path : String) : Bool := (Language.ofPath? path).isSome

end HandlerIndex
