import HandlerIndex.Json.Basic

/-!
The printer of the settings file. It writes JSON texts with one item to a line, two blanks deeper
than what holds it. Only quotes, backslashes and control characters are escaped in a text. A value
that is known by its kind alone is printed as one that reads back the same. Left out are compact
texts, which nothing writes.
-/
namespace HandlerIndex.Json

def hexDigit (n : Nat) : Char := Nat.digitChar n

def controlEscape (c : Char) : List Char :=
  ['\\', 'u', '0', '0', hexDigit (c.toNat / 16), hexDigit (c.toNat % 16)]

def escapeChar (c : Char) : List Char :=
  if c = '"' then ['\\', '"']
  else if c = '\\' then ['\\', '\\']
  else if c = '\n' then ['\\', 'n']
  else if c = '\r' then ['\\', 'r']
  else if c = '\t' then ['\\', 't']
  else if c = '\x08' then ['\\', 'b']
  else if c = '\x0c' then ['\\', 'f']
  else if c < ' ' then controlEscape c
  else [c]

def quote (content : String) : List Char :=
  '"' :: content.toList.flatMap escapeChar ++ ['"']

def halfPair : List Char := ['"', '\\', 'u', 'd', '8', '0', '0', '"']

def renderText : Option String → List Char
  | some content => quote content
  | none => halfPair

def renderNumber : Option Nat → List Char
  | some n => Nat.toDigits 10 n
  | none => ['-', '0']

def lineBreak (depth : Nat) : List Char := '\n' :: List.replicate (2 * depth) ' '

mutual

def render (depth : Nat) : Json → List Char
  | .null => "null".toList
  | .bool true => "true".toList
  | .bool false => "false".toList
  | .number whole => renderNumber whole
  | .text content => renderText content
  | .array [] => ['[', ']']
  | .array (item :: items) =>
    '[' :: lineBreak (depth + 1) ++ render (depth + 1) item ++ renderItems (depth + 1) items
      ++ lineBreak depth ++ [']']
  | .object [] => ['\x7b', '\x7d']
  | .object ((name, value) :: members) =>
    '\x7b' :: lineBreak (depth + 1) ++ renderText name ++ ':' :: ' ' :: render (depth + 1) value
      ++ renderMembers (depth + 1) members ++ lineBreak depth ++ ['\x7d']

def renderItems (depth : Nat) : List Json → List Char
  | [] => []
  | item :: items => ',' :: lineBreak depth ++ render depth item ++ renderItems depth items

def renderMembers (depth : Nat) : List (Option String × Json) → List Char
  | [] => []
  | (name, value) :: members =>
    ',' :: lineBreak depth ++ renderText name ++ ':' :: ' ' :: render depth value ++
      renderMembers depth members

end

def pretty (value : Json) : String := String.ofList (render 0 value)

end HandlerIndex.Json
