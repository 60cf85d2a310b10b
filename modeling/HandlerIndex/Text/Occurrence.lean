/-!
The substring search of the event search: where one text occurs in another, told in bytes of UTF-8.
-/
namespace HandlerIndex.Text

def byteLength (text : List Char) : Nat := text.foldr (fun c total => c.utf8Size + total) 0

def occurrenceFrom (sought : List Char) (place : Nat) : List Char → Option Nat
  | [] => if sought.isEmpty then some place else none
  | c :: rest =>
    if sought.isPrefixOf (c :: rest) then some place
    else occurrenceFrom sought (place + c.utf8Size) rest

def occurrence? (sought text : List Char) : Option Nat := occurrenceFrom sought 0 text

def occursIn (sought text : List Char) : Bool := (occurrence? sought text).isSome

end HandlerIndex.Text
