import HandlerIndex.Proofs.KeyGrammar
import HandlerIndex.Proofs.TextBytes

/-!
The key parser, with raw keys as texts. A key is read exactly as the convention describes it: the
longest listed marker that it begins with, and what the text after the marker names. Markers are
compared by their bytes and the key is cut by bytes, but both come to the same as with characters,
because a marker that begins the key ends where a character ends.
-/
namespace HandlerIndex

/-! Beginnings of a text and their bytes. -/
namespace Text

@[simp] theorem to_bytes_append (first rest : String) :
    toBytes (first ++ rest) = toBytes first ++ toBytes rest := by
  rw [to_bytes_flat_map, to_bytes_flat_map, to_bytes_flat_map, String.toList_append,
    List.flatMap_append]

@[simp] theorem to_bytes_eq_nil_iff {text : String} : toBytes text = [] ↔ text = "" := by
  rw [to_bytes_flat_map, List.flatMap_eq_nil_iff, ← String.toList_eq_nil_iff]
  constructor
  · intro empty
    refine List.eq_nil_iff_forall_not_mem.mpr fun c member => ?_
    exact String.utf8EncodeChar_ne_nil (empty c member)
  · intro empty c member
    rw [empty] at member
    cases member

/-- The bytes after those of a beginning are again a text, so the cut falls between two
characters. -/
theorem of_bytes_after (first rest : String) :
    ofBytes ((toBytes (first ++ rest)).drop (toBytes first).length) = .ok rest := by
  rw [to_bytes_append, List.drop_left, of_bytes_to_bytes]

theorem append_of_prefix {first whole : String} (begins : first.toList <+: whole.toList) :
    ∃ rest, whole = first ++ rest := by
  obtain ⟨rest, parts⟩ := begins
  refine ⟨String.ofList rest, String.toList_injective ?_⟩
  rw [String.toList_append, String.toList_ofList, parts]

theorem prefix_of_append {first whole rest : String} (parts : whole = first ++ rest) :
    first.toList <+: whole.toList := by
  rw [parts, String.toList_append]
  exact List.prefix_append _ _

theorem fewer_bytes_of_prefix {first second : String} (begins : first.toList <+: second.toList) :
    (toBytes first).length ≤ (toBytes second).length := by
  obtain ⟨rest, rfl⟩ := append_of_prefix begins
  rw [to_bytes_append, List.length_append]
  exact Nat.le_add_right _ _

/-- Of two beginnings of one text, the one with fewer characters has fewer bytes. -/
theorem bytes_le_iff {first second whole : String} (begins : first.toList <+: whole.toList)
    (second_begins : second.toList <+: whole.toList) :
    (toBytes first).length ≤ (toBytes second).length ↔
      first.toList.length ≤ second.toList.length := by
  constructor
  · intro fewer
    rcases Nat.le_total first.toList.length second.toList.length with shorter | longer
    · exact shorter
    · -- The second one begins the first, and what is left of the first has no bytes.
      obtain ⟨rest, rfl⟩ :=
        append_of_prefix (List.prefix_of_prefix_length_le second_begins begins longer)
      rw [to_bytes_append, List.length_append] at fewer
      have nothing : rest = "" := to_bytes_eq_nil_iff.mp (List.length_eq_zero_iff.mp (by omega))
      exact Nat.le_of_eq (by rw [nothing, String.append_empty])
  · intro shorter
    exact fewer_bytes_of_prefix (List.prefix_of_prefix_length_le begins second_begins shorter)

end Text

namespace Convention
variable {convention : Convention} {raw marker : String}

/-- The marker of a raw key: of the listed ones that the key begins with, the one with the most
bytes. -/
structure Marks (convention : Convention) (raw marker : String) : Prop where
  listed : marker ∈ convention.markers
  filled : marker ≠ ""
  begins : ∃ rest, raw = marker ++ rest
  longest : ∀ other ∈ convention.markers, (∃ rest, raw = other ++ rest) →
    (Text.toBytes other).length ≤ (Text.toBytes marker).length

theorem marks_iff :
    convention.Marks raw marker ↔
      IsLongest raw.toList (convention.markers.map String.toList) marker.toList := by
  have filled {text : String} : text.toList ≠ [] ↔ text ≠ "" := not_congr String.toList_eq_nil_iff
  constructor
  · rintro ⟨listed, some_char, ⟨rest, parts⟩, longest⟩
    have begins := Text.prefix_of_append parts
    refine ⟨List.mem_map_of_mem listed, ⟨filled.mpr some_char, begins⟩, ?_⟩
    intro other member fits
    obtain ⟨text, among, rfl⟩ := List.mem_map.mp member
    exact (Text.bytes_le_iff fits.2 begins).mp (longest text among (Text.append_of_prefix fits.2))
  · rintro ⟨listed, ⟨some_char, begins⟩, longest⟩
    obtain ⟨text, among, same⟩ := List.mem_map.mp listed
    rw [String.toList_injective same] at among
    refine ⟨among, filled.mp some_char, Text.append_of_prefix begins, ?_⟩
    rintro other member ⟨rest, parts⟩
    have other_begins := Text.prefix_of_append parts
    refine (Text.bytes_le_iff other_begins begins).mpr ?_
    by_cases empty : other = ""
    · rw [empty]
      exact Nat.zero_le _
    · exact longest _ (List.mem_map_of_mem member) ⟨filled.mpr empty, other_begins⟩

theorem trim_ne_empty_iff {text : String} :
    Text.trim text ≠ "" ↔ Text.trimChars text.toList ≠ [] := by
  rw [Text.trim, ne_eq, ← String.toList_eq_nil_iff, String.toList_ofList]

theorem to_list_divided (space service : String) (separator : Char) :
    (space ++ String.singleton separator ++ service).toList = space.toList ++ separator ::
      service.toList := by
  rw [String.toList_append, String.toList_append, String.toList_singleton, List.append_assoc]
  rfl

/-- What the text after a marker says: all of it is the service if it has no separator, else what
follows the first one. -/
theorem means_iff {separator : Char} {rest : String} {event service : String} :
    Means separator marker.toList rest.toList ⟨event, service⟩ ↔
      (separator ∉ rest.toList ∧ Text.trim rest ≠ "" ∧ event = marker ++ rest ∧
        service = Text.trim rest) ∨
      ∃ space name, rest = space ++ String.singleton separator ++ name ∧ separator ∉ space.toList ∧
        Text.trim space ≠ "" ∧ Text.trim name ≠ "" ∧ event = marker ++ space ∧
        service = Text.trim name := by
  constructor
  · intro meaning
    cases meaning with
    | undivided whole named =>
      rw [String.ofList_append, String.ofList_toList, String.ofList_toList]
      exact .inl ⟨whole, trim_ne_empty_iff.mpr named, rfl, rfl⟩
    | divided space name parts first spaced named =>
      refine .inr ⟨String.ofList space, String.ofList name, String.toList_injective ?_, ?_, ?_,
        ?_, ?_, ?_⟩
      · rw [to_list_divided, String.toList_ofList, String.toList_ofList, parts]
      · rwa [String.toList_ofList]
      · rwa [trim_ne_empty_iff, String.toList_ofList]
      · rwa [trim_ne_empty_iff, String.toList_ofList]
      · rw [String.ofList_append, String.ofList_toList]
      · rw [Text.trim, String.toList_ofList]
  · rintro (⟨whole, named, rfl, rfl⟩ | ⟨space, name, rfl, first, spaced, named, rfl, rfl⟩)
    · have meaning : Means separator marker.toList rest.toList _ :=
        .undivided whole (trim_ne_empty_iff.mp named)
      rwa [String.ofList_append, String.ofList_toList, String.ofList_toList] at meaning
    · have meaning : Means separator marker.toList _ _ :=
        .divided space.toList name.toList (to_list_divided space name separator) first
          (trim_ne_empty_iff.mp spaced) (trim_ne_empty_iff.mp named)
      rwa [String.ofList_append, String.ofList_toList, String.ofList_toList] at meaning

theorem parse_eq_some_iff {key : EventKey} :
    convention.parse raw = some key ↔ ∃ marker rest,
      raw = marker ++ rest ∧ convention.Marks raw marker ∧
      Means convention.separator marker.toList rest.toList key := by
  rw [parse_iff]
  constructor
  · rintro ⟨marker, rest, whole, longest, meaning⟩
    refine ⟨String.ofList marker, String.ofList rest, String.toList_injective ?_, ?_, ?_⟩
    · rw [whole, String.toList_append, String.toList_ofList, String.toList_ofList]
    · rwa [marks_iff, String.toList_ofList]
    · rwa [String.toList_ofList, String.toList_ofList]
  · rintro ⟨marker, rest, whole, marks, meaning⟩
    refine ⟨marker.toList, rest.toList, ?_, marks_iff.mp marks, meaning⟩
    rw [whole, String.toList_append]

theorem Marks.of_same_markers {other : Convention}
    (same : ∀ text, text ≠ "" → (text ∈ other.markers ↔ text ∈ convention.markers))
    (marks : convention.Marks raw marker) : other.Marks raw marker where
  listed := (same marker marks.filled).mpr marks.listed
  filled := marks.filled
  begins := marks.begins
  longest text listed begins := by
    by_cases empty : text = ""
    · rw [empty]
      exact Nat.zero_le _
    · exact marks.longest text ((same text empty).mp listed) begins

/-- The order of the markers, their repetition and an empty one do not show. -/
theorem parse_of_same_markers {markers : List String}
    (same : ∀ text, text ≠ "" → (text ∈ markers ↔ text ∈ convention.markers)) :
    parse ⟨markers, convention.separator⟩ raw = convention.parse raw := by
  have back : ∀ text, text ≠ "" → (text ∈ convention.markers ↔ text ∈ markers) :=
    fun text filled => (same text filled).symm
  refine Option.ext fun key => ?_
  rw [parse_eq_some_iff, parse_eq_some_iff]
  constructor
  · rintro ⟨marker, rest, whole, marks, meaning⟩
    exact ⟨marker, rest, whole, marks.of_same_markers back, meaning⟩
  · rintro ⟨marker, rest, whole, marks, meaning⟩
    exact ⟨marker, rest, whole, marks.of_same_markers same, meaning⟩

/-- What is read after the marker is the text of the bytes there. -/
theorem parse_of_marks (marks : convention.Marks raw marker) :
    ∃ rest, Text.ofBytes ((Text.toBytes raw).drop (Text.toBytes marker).length) = .ok rest ∧
      convention.parse raw = readRest convention.separator marker.toList rest.toList := by
  obtain ⟨rest, whole⟩ := marks.begins
  have found := longest_marker_eq_some_iff.mpr (marks_iff.mp marks)
  refine ⟨rest, ?_, ?_⟩
  · rw [whole]
    exact Text.of_bytes_after marker rest
  · have after : raw.toList.drop marker.toList.length = rest.toList := by
      rw [whole, String.toList_append, List.drop_left]
    simp only [parse, found, Option.bind_eq_bind, Option.bind_some, after]

/-- A key is read exactly if it follows the grammar, whatever the order of the markers, and the
bytes after its marker are a text. -/
theorem parse_follows_grammar (convention : Convention) (raw : String) :
    (∀ event service, convention.parse raw = some ⟨event, service⟩ ↔
      ∃ marker rest, convention.Marks raw marker ∧ raw = marker ++ rest ∧
        ((convention.separator ∉ rest.toList ∧ Text.trim rest ≠ "" ∧ event = raw ∧
          service = Text.trim rest) ∨
          ∃ space name, rest = space ++ String.singleton convention.separator ++ name ∧
            convention.separator ∉ space.toList ∧ Text.trim space ≠ "" ∧ Text.trim name ≠ "" ∧
            event = marker ++ space ∧ service = Text.trim name)) ∧
    (∀ markers, (∀ text, text ≠ "" → (text ∈ markers ↔ text ∈ convention.markers)) →
      parse ⟨markers, convention.separator⟩ raw = convention.parse raw) ∧
    ∀ marker, convention.Marks raw marker →
      ∃ rest, Text.ofBytes ((Text.toBytes raw).drop (Text.toBytes marker).length) = .ok rest ∧
        convention.parse raw = readRest convention.separator marker.toList rest.toList := by
  refine ⟨?_, fun markers same => parse_of_same_markers same, fun marker marks =>
    parse_of_marks marks⟩
  · intro event service
    rw [parse_eq_some_iff]
    constructor
    · rintro ⟨marker, rest, whole, marks, meaning⟩
      refine ⟨marker, rest, marks, whole, ?_⟩
      rw [whole]
      exact means_iff.mp meaning
    · rintro ⟨marker, rest, marks, whole, forms⟩
      refine ⟨marker, rest, whole, marks, means_iff.mpr ?_⟩
      rw [← whole]
      exact forms

def overlappingMarkers : Convention := ⟨["on_", "", "on_é.", "on_"], '.'⟩

theorem overlapping_markers_read :
    overlappingMarkers.parse "on_é.x . y.z" = some ⟨"on_é.x ", "y.z"⟩ ∧
    parse ⟨["on_é.", "on_"], '.'⟩ "on_é.x . y.z" = some ⟨"on_é.x ", "y.z"⟩ ∧
    ∃ rest, Text.ofBytes ((Text.toBytes "on_é.x . y.z").drop 6) = .ok rest := by
  obtain ⟨reads, same, cut⟩ := parse_follows_grammar overlappingMarkers "on_é.x . y.z"
  have marks : overlappingMarkers.Marks "on_é.x . y.z" "on_é." := by
    rw [marks_iff, ← longest_marker_eq_some_iff]
    decide +kernel
  have read : overlappingMarkers.parse "on_é.x . y.z" = some ⟨"on_é.x ", "y.z"⟩ :=
    (reads _ _).mpr ⟨"on_é.", "x . y.z", marks, by decide +kernel,
      .inr ⟨"x ", " y.z", by decide +kernel, by decide +kernel, by decide +kernel, by
        decide +kernel, by decide +kernel, by decide +kernel⟩⟩
  have rearranged : ∀ text, text ≠ "" →
      (text ∈ ["on_é.", "on_"] ↔ text ∈ overlappingMarkers.markers) := by
    simp only [overlappingMarkers, List.mem_cons, List.not_mem_nil, or_false]
    grind
  refine ⟨read, (same _ rearranged).trans read, ?_⟩
  obtain ⟨rest, decoded, -⟩ := cut "on_é." marks
  exact ⟨rest, decoded⟩

end Convention
end HandlerIndex
