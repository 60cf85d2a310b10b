import HandlerIndex.Single
import HandlerIndex.Store.Queries

/-!
The event search, which finds events by a text. The tables give the candidates; each gets a score,
and the best come first, those of one score in the order of their names. Scores are singles. The
search is all here, down to the bits of a score.
-/
namespace HandlerIndex.Store

structure Query where
  text : Option String
  minFiles : Option UInt64
  limit : Option Nat
  deriving Repr

def Query.defaultLimit : Nat := 50

structure Match where
  summary : EventSummary
  score : Rat
  deriving DecidableEq

def placeScore (place length : Nat) : Rat :=
  let share := Single.round (Single.round place / Single.round length)
  Single.round (Single.round (7 / 10) - Single.round (share * Single.round (3 / 10)))

-- A name that ends with the text comes before others that contain it: people type the last part.
def relevance (event query : String) : Rat :=
  let name := Text.lowercaseChars event.toList
  let sought := Text.lowercaseChars query.toList
  if query.isEmpty then 1
  else if name = sought then 1
  else if sought.isSuffixOf name then Single.round (9 / 10)
  else
    match Text.occurrence? sought name with
    | some place => placeScore place (Text.byteLength name)
    | none => 0

def Match.precedes (a b : Match) : Bool :=
  decide (b.score < a.score ∨ a.score = b.score ∧ a.summary.event ≤ b.summary.event)

def rank (query : String) (candidates : List EventSummary) : List Match :=
  let scored := candidates.map fun summary => ⟨summary, relevance summary.event query⟩
  (scored.filter fun found => decide (0 < found.score)).mergeSort Match.precedes

def Tables.search (tables : Tables) (query : Query) : Except Fault (List Match) := do
  let text := query.text.getD ""
  let candidates ← tables.searchEvents text (query.minFiles.getD 0)
  .ok ((rank text candidates).take (query.limit.getD Query.defaultLimit))

end HandlerIndex.Store
