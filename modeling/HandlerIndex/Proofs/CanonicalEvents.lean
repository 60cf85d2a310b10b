import HandlerIndex.Php.Reader
import HandlerIndex.Proofs.KeyReading
import HandlerIndex.Proofs.WellFormedAnswers

/-!
The events that the key parser finds are keys of themselves. The event of a key is a beginning of it
with the same marker, so reading the event as a key stops at that marker again and finds no
separator after it. A service can be put behind the event unless some marker has a separator in it:
such a marker could reach from the event into the service.
-/
namespace HandlerIndex

theorem Text.Trimmed.trim_chars_eq {text : List Char} (trimmed : Text.Trimmed text) :
    Text.trimChars text = text := by
  have whole {cs : List Char} (first : ∀ c ∈ cs.head?, Text.isBlank c = false) :
      cs.dropWhile Text.isBlank = cs := by
    cases cs with
    | nil => rfl
    | cons c rest => rw [List.dropWhile_cons_of_neg (by simp [first c rfl])]
  have backwards : ∀ c ∈ text.reverse.head?, Text.isBlank c = false := by
    rw [List.head?_reverse]
    exact trimmed.last
  rw [Text.trimChars, Text.trimLeft, Text.trimRight, whole trimmed.first, whole backwards,
    List.reverse_reverse]

namespace Convention

/-! The marker of a key that is made shorter or longer. -/
section Markers
variable {raw : List Char} {markers : List (List Char)} {marker : List Char}

theorem Fits.of_prefix {shorter : List Char} (fits : Fits shorter marker)
    (begins : shorter <+: raw) :
    Fits raw marker :=
  ⟨fits.1, fits.2.trans begins⟩

/-- A key that is cut after its marker keeps it. -/
theorem IsLongest.of_prefix {shorter : List Char} (longest : IsLongest raw markers marker)
    (begins : shorter <+: raw) (kept : marker <+: shorter) : IsLongest shorter markers marker where
  listed := longest.listed
  fits := ⟨longest.fits.1, kept⟩
  longest other listed fits := longest.longest other listed (fits.of_prefix begins)

-- A marker that fits the longer key only would end behind the separator.
/-- A key that goes on with a separator keeps its marker, if no marker has a separator in it. -/
theorem IsLongest.extended {separator : Char} (longest : IsLongest raw markers marker)
    (whole : ∀ other ∈ markers, separator ∉ other) (rest : List Char) :
    IsLongest (raw ++ separator :: rest) markers marker where
  listed := longest.listed
  fits := longest.fits.of_prefix (List.prefix_append _ _)
  longest other listed fits := by
    rcases Nat.le_total other.length raw.length with shorter | longer
    · have inside : other <+: raw :=
        List.prefix_of_prefix_length_le fits.2 (List.prefix_append _ _) shorter
      exact longest.longest other listed ⟨fits.1, inside⟩
    · obtain ⟨more, parts⟩ :=
        List.prefix_of_prefix_length_le (List.prefix_append raw (separator :: rest)) fits.2 longer
      cases more with
      | nil =>
        rw [List.append_nil] at parts
        exact longest.longest other listed ⟨fits.1, parts ▸ List.prefix_rfl⟩
      | cons c later =>
        have begins := fits.2
        rw [← parts, List.prefix_append_right_inj, List.cons_prefix_cons] at begins
        exact absurd (by rw [← parts, begins.1]; simp) (whole other listed)

end Markers

/-! What an event is made of. -/
section Events
variable {convention : Convention}

/-- An event as keys have it: a marker, and a namespace after it. -/
structure IsEvent (convention : Convention) (event marker space : List Char) : Prop where
  parts : event = marker ++ space
  longest : IsLongest event (convention.markers.map String.toList) marker
  undivided : convention.separator ∉ space
  spaced : Text.trimChars space ≠ []

theorem parsed_event {raw : String} {key : EventKey} (parsed : convention.parse raw = some key) :
    ∃ marker space, convention.IsEvent key.targetEvent.toList marker space := by
  obtain ⟨marker, rest, whole, longest, meaning⟩ := (convention.parse_iff raw key).mp parsed
  rw [whole] at longest
  cases meaning with
  | undivided single named =>
    rw [String.toList_ofList]
    exact ⟨marker, rest, rfl, longest, single, named⟩
  | divided space service parts first spaced named =>
    have begins : marker ++ space <+: marker ++ rest := by
      rw [parts, ← List.append_assoc]
      exact List.prefix_append _ _
    rw [String.toList_ofList]
    exact ⟨marker, space, rfl, longest.of_prefix begins (List.prefix_append _ _), first, spaced⟩

theorem IsEvent.parse_self {event : String} {marker space : List Char}
    (made : convention.IsEvent event.toList marker space) :
    convention.parse event = some ⟨event, String.ofList (Text.trimChars space)⟩ := by
  have meaning : Means convention.separator marker space _ := .undivided made.undivided made.spaced
  rw [← made.parts, String.ofList_toList] at meaning
  exact (convention.parse_iff event _).mpr ⟨marker, space, made.parts, made.longest, meaning⟩

theorem IsEvent.parse_service {event service : String} {marker space : List Char}
    (made : convention.IsEvent event.toList marker space)
    (whole : ∀ marker ∈ convention.markers, convention.separator ∉ marker.toList)
    (named : service ≠ "") (trimmed : Text.Trimmed service.toList) :
    convention.parse (event ++ String.singleton convention.separator ++ service) =
      some ⟨event, service⟩ := by
  have written := to_list_divided event service convention.separator
  have longest : IsLongest (event.toList ++ convention.separator :: service.toList) _ marker :=
    made.longest.extended (by
      intro other member
      obtain ⟨text, listed, rfl⟩ := List.mem_map.mp member
      exact whole text listed) service.toList
  have meaning : Means convention.separator marker
      (space ++ convention.separator :: service.toList) _ :=
    .divided space service.toList rfl made.undivided made.spaced (by
      rw [trimmed.trim_chars_eq]
      exact fun empty => named (String.toList_eq_nil_iff.mp empty))
  rw [← made.parts, trimmed.trim_chars_eq, String.ofList_toList, String.ofList_toList] at meaning
  refine (convention.parse_iff _ _).mpr ⟨marker, space ++ convention.separator :: service.toList,
    ?_, ?_, meaning⟩
  · rw [written, made.parts, List.append_assoc]
  · rw [written]
    exact longest

end Events

/-- The event of a key is a key of the same event, and so is every event that a file's handlers are
filed under; if no marker has a separator in it, the event with any service behind it is a key of
that event and service. -/
theorem events_are_keys (convention : Convention) :
    (∀ raw event service, convention.parse raw = some ⟨event, service⟩ →
      (∃ own, convention.parse event = some ⟨event, own⟩) ∧
      ((∀ marker ∈ convention.markers, convention.separator ∉ marker.toList) →
        ∀ text : String, text ≠ "" → Text.Trimmed text.toList →
          convention.parse (event ++ String.singleton convention.separator ++ text) =
            some ⟨event, text⟩)) ∧
    ∀ methodName root, ∀ group ∈ (mapTree ⟨methodName, convention⟩ root).groups,
      ∃ own, convention.parse group.event = some ⟨group.event, own⟩ := by
  constructor
  · intro raw event service parsed
    obtain ⟨marker, space, made⟩ := parsed_event parsed
    exact ⟨⟨_, made.parse_self⟩, fun whole text named trimmed =>
      made.parse_service whole named trimmed⟩
  · intro methodName root group member
    obtain ⟨some_handler, formed⟩ := map_tree_well_formed ⟨methodName, convention⟩ root group member
    obtain ⟨s, among⟩ := List.exists_mem_of_ne_nil _ some_handler
    obtain ⟨marker, space, made⟩ := parsed_event (formed s among).parsed
    rw [(formed s among).filed] at made
    exact ⟨_, made.parse_self⟩

def nestedMarkers : Convention := ⟨["", "on_", "on_user"], ' '⟩

def nestedMarkersSource : String :=
  "<?php class A \x7b function events() \x7b " ++
    "return ['on_user.a   b c' => 'h', 'on_usr' => 'k']; \x7d \x7d"

theorem nested_markers_events :
    nestedMarkers.parse "on_user.a   b c" = some ⟨"on_user.a", "b c"⟩ ∧
    (∃ own, nestedMarkers.parse "on_user.a" = some ⟨"on_user.a", own⟩) ∧
    nestedMarkers.parse "on_user.a x  y" = some ⟨"on_user.a", "x  y"⟩ ∧
    ⟨"on_usr", [⟨"on_usr", "on_usr", "usr", "A.k"⟩]⟩ ∈
      (mapTree ⟨"events", nestedMarkers⟩ (Php.parse nestedMarkersSource)).groups ∧
    ∃ own, nestedMarkers.parse "on_usr" = some ⟨"on_usr", own⟩ := by
  obtain ⟨keys, filed⟩ := events_are_keys nestedMarkers
  have parsed : nestedMarkers.parse "on_user.a   b c" = some ⟨"on_user.a", "b c"⟩ := by
    decide +kernel
  have whole : ∀ marker ∈ nestedMarkers.markers, nestedMarkers.separator ∉ marker.toList := by
    decide +kernel
  have trimmed : Text.Trimmed "x  y".toList := by
    have kept : Text.trimChars "x  y".toList = "x  y".toList := by decide +kernel
    rw [← kept]
    exact Text.trim_chars_trimmed _
  obtain ⟨itself, extended⟩ := keys _ _ _ parsed
  have grouped : ⟨"on_usr", [⟨"on_usr", "on_usr", "usr", "A.k"⟩]⟩ ∈
      (mapTree ⟨"events", nestedMarkers⟩ (Php.parse nestedMarkersSource)).groups := by
        decide +kernel
  have joined : "on_user.a" ++ String.singleton nestedMarkers.separator ++ "x  y" =
      "on_user.a x  y" := by
    decide +kernel
  have served := extended whole "x  y" (by decide) trimmed
  rw [joined] at served
  have key_again := filed "events" _ _ grouped
  exact ⟨parsed, itself, served, grouped, key_again⟩

-- A marker with a separator in it takes over when the service is put behind the event.
example : parse ⟨["a", "ab.c"], '.'⟩ "ab" = some ⟨"ab", "b"⟩ ∧
    parse ⟨["a", "ab.c"], '.'⟩ "ab.cd" = some ⟨"ab.cd", "d"⟩ := by decide +kernel

end Convention
end HandlerIndex
