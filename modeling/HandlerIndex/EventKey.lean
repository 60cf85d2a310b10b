import HandlerIndex.Text.Blank

/-!
The parser of raw event keys. A key such as `Marker_plugin.mailer` names an event and, inside it,
the service that the event is about. A naming convention lists the markers that such keys begin with
and the character that divides the namespace from the service. The parser is all here; which
convention a project follows is a matter of its settings.
-/
namespace HandlerIndex

structure Convention where
  markers : List String
  separator : Char
  deriving DecidableEq, Repr

structure EventKey where
  targetEvent : String
  serviceName : String
  deriving DecidableEq, Repr

namespace Convention

def standard : Convention where
  markers := ["Enlight_Bootstrap_InitResource_", "Enlight_Bootstrap_AfterInitResource_"]
  separator := '.'

/-- The better one of the marker held so far and another one. The empty marker never counts. -/
def better (raw : List Char) (best : Option (List Char)) (marker : List Char) :
    Option (List Char) :=
  if marker ≠ [] ∧ marker.isPrefixOf raw then
    match best with
    | none => some marker
    | some held => if held.length ≤ marker.length then some marker else some held
  else best

-- Two markers that both begin the same key differ in length unless they are equal,
-- so the order of the list cannot show in the result.
def longestMarker (raw : List Char) (markers : List (List Char)) : Option (List Char) :=
  markers.foldl (better raw) none

def divide (separator : Char) : List Char → Option (List Char × List Char)
  | [] => none
  | c :: rest =>
    if c = separator then some ([], rest)
    else (divide separator rest).map fun (before, after) => (c :: before, after)

/-- Reads the part of the key after its marker. A rest with a separator needs something on both
sides of it; one without is itself the service, and then the whole key is the event. -/
def readRest (separator : Char) (marker rest : List Char) : Option EventKey :=
  match divide separator rest with
  | none =>
    let service := Text.trimChars rest
    if service = [] then none
    else some ⟨String.ofList (marker ++ rest), String.ofList service⟩
  | some (space, service) =>
    let service := Text.trimChars service
    if Text.trimChars space = [] ∨ service = [] then none
    else some ⟨String.ofList (marker ++ space), String.ofList service⟩

/-- Reads a raw key; a key that begins with no marker, or names nothing after it, has no meaning. -/
def parse (convention : Convention) (raw : String) : Option EventKey := do
  let chars := raw.toList
  let marker ← longestMarker chars (convention.markers.map String.toList)
  readRest convention.separator marker (chars.drop marker.length)

end Convention
end HandlerIndex
