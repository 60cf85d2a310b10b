import HandlerIndex.EventKey

/-!
The grammar of raw keys that the key parser follows. A key begins with a marker of the convention,
the longest that fits, and what follows it names a service, either alone or after a namespace and a
separator. What a key means is read off these parts.
-/
namespace HandlerIndex

/-! Texts without blanks at their ends. -/
namespace Text

structure Trimmed (text : List Char) : Prop where
  first : ∀ c ∈ text.head?, isBlank c = false
  last : ∀ c ∈ text.getLast?, isBlank c = false

theorem drop_while_head (cs : List Char) :
    ∀ c ∈ (cs.dropWhile isBlank).head?, isBlank c = false := by
  intro c first
  have stopped := List.head?_dropWhile_not isBlank cs
  rw [Option.mem_def.mp first] at stopped
  simpa using stopped

theorem trim_right_prefix (cs : List Char) : trimRight cs <+: cs := by
  have ending := List.dropWhile_suffix isBlank (l := cs.reverse)
  rw [trimRight, ← List.reverse_suffix, List.reverse_reverse]
  exact ending

theorem trim_chars_trimmed (cs : List Char) : Trimmed (trimChars cs) where
  first c first := by
    -- What is trimmed on the right begins as before, unless nothing is left.
    obtain ⟨rest, whole⟩ := trim_right_prefix (trimLeft cs)
    have begins : (trimLeft cs).head? = some c := by
      have same : (trimRight (trimLeft cs)).head? = some c := first
      rw [← whole, List.head?_append, same, Option.some_or]
    exact drop_while_head cs c begins
  last c last := by
    rw [trimChars, trimRight, List.getLast?_reverse] at last
    exact drop_while_head _ c last

end Text

namespace Convention

/-! The marker of a key. -/
section Markers
variable {raw : List Char}

def Fits (raw marker : List Char) : Prop := marker ≠ [] ∧ marker <+: raw

/-- The marker of a list that begins a key: it is the longest that does. -/
structure IsLongest (raw : List Char) (markers : List (List Char)) (marker : List Char) : Prop where
  listed : marker ∈ markers
  fits : Fits raw marker
  longest : ∀ other ∈ markers, Fits raw other → other.length ≤ marker.length

def Best (raw : List Char) (seen : List (List Char)) : Option (List Char) → Prop
  | none => ∀ marker ∈ seen, ¬Fits raw marker
  | some marker => IsLongest raw seen marker

theorem longest_taken {seen : List (List Char)} {marker : List Char} (fits : Fits raw marker)
    (others : ∀ other ∈ seen, Fits raw other → other.length ≤ marker.length) :
    IsLongest raw (seen ++ [marker]) marker := by
  refine ⟨by simp, fits, ?_⟩
  intro other member other_fits
  rcases List.mem_append.mp member with before | here
  · exact others other before other_fits
  · exact Nat.le_of_eq (congrArg List.length (List.mem_singleton.mp here))

theorem best_kept {seen : List (List Char)} {marker : List Char} {best : Option (List Char)}
    (known : Best raw seen best)
    (passed : Fits raw marker → ∃ held, best = some held ∧ marker.length ≤ held.length) :
    Best raw (seen ++ [marker]) best := by
  cases best with
  | none =>
    intro other member fits
    rcases List.mem_append.mp member with before | here
    · exact known other before fits
    · obtain ⟨held, absent, -⟩ := passed (List.mem_singleton.mp here ▸ fits)
      cases absent
  | some held =>
    refine ⟨List.mem_append_left _ known.listed, known.fits, ?_⟩
    intro other member fits
    rcases List.mem_append.mp member with before | here
    · exact known.longest other before fits
    · rw [List.mem_singleton.mp here] at fits ⊢
      obtain ⟨same, held_same, shorter⟩ := passed fits
      cases held_same
      exact shorter

theorem better_best {seen : List (List Char)} {best : Option (List Char)}
    (known : Best raw seen best) (marker : List Char) :
    Best raw (seen ++ [marker]) (better raw best marker) := by
  have fitting : (marker ≠ [] ∧ marker.isPrefixOf raw = true) ↔ Fits raw marker := by
    rw [Fits, List.isPrefixOf_iff_prefix]
  unfold better
  by_cases fits : Fits raw marker
  · rw [if_pos (fitting.mpr fits)]
    cases best with
    | none => exact longest_taken fits fun other before other_fits =>
                absurd other_fits (known other before)
    | some held =>
      dsimp only
      by_cases longer : held.length ≤ marker.length
      · rw [if_pos longer]
        exact longest_taken fits fun other before other_fits =>
          Nat.le_trans (known.longest other before other_fits) longer
      · rw [if_neg longer]
        exact best_kept known fun _ => ⟨held, rfl, Nat.le_of_not_le longer⟩
  · rw [if_neg fun both => fits (fitting.mp both)]
    exact best_kept known fun now_fits => absurd now_fits fits

theorem fold_best (rest seen : List (List Char)) {best : Option (List Char)}
    (known : Best raw seen best) :
    Best raw (seen ++ rest) (rest.foldl (better raw) best) := by
  induction rest generalizing seen best with
  | nil =>
    rw [List.append_nil]
    exact known
  | cons marker rest ih =>
    have next := ih (seen ++ [marker]) (better_best known marker)
    rw [List.append_assoc, List.singleton_append] at next
    exact next

theorem longest_marker_best (raw : List Char) (markers : List (List Char)) :
    Best raw markers (longestMarker raw markers) := by
  rw [longestMarker]
  exact fold_best markers [] fun _ member => absurd member List.not_mem_nil

-- Two markers that begin the same key and are equally long are the same.
theorem longest_marker_eq_some_iff {markers : List (List Char)} {marker : List Char} :
    longestMarker raw markers = some marker ↔ IsLongest raw markers marker := by
  have best := longest_marker_best raw markers
  constructor
  · intro found
    rw [found] at best
    exact best
  · intro longest
    cases found : longestMarker raw markers with
    | none =>
      rw [found] at best
      exact absurd longest.fits (best marker longest.listed)
    | some other =>
      rw [found] at best
      have same_length : other.length = marker.length :=
        Nat.le_antisymm (longest.longest other best.listed best.fits)
          (best.longest marker longest.listed longest.fits)
      exact congrArg some
        ((List.prefix_of_prefix_length_le best.fits.2 longest.fits.2
          (Nat.le_of_eq same_length)).eq_of_length same_length)

end Markers

/-! What follows the marker. -/
section Rest

theorem divide_eq_none_iff {separator : Char} {rest : List Char} :
    divide separator rest = none ↔ separator ∉ rest := by
  induction rest with
  | nil => simp [divide]
  | cons c rest ih =>
    by_cases here : c = separator
    · simp [divide, here]
    · simp [divide, here, ih, Ne.symm here]

theorem divide_append {separator : Char} {before : List Char} (first : separator ∉ before)
    (after : List Char) :
    divide separator (before ++ separator :: after) = some (before, after) := by
  induction before with
  | nil => simp [divide]
  | cons c before ih =>
    rw [List.mem_cons, not_or] at first
    simp [divide, Ne.symm first.1, ih first.2]

theorem divide_sound {separator : Char} {rest before after : List Char}
    (split : divide separator rest = some (before, after)) :
    rest = before ++ separator :: after ∧ separator ∉ before := by
  induction rest generalizing before with
  | nil => cases split
  | cons c rest ih =>
    rw [divide] at split
    by_cases here : c = separator
    · rw [if_pos here] at split
      cases split
      exact ⟨by rw [here, List.nil_append], List.not_mem_nil⟩
    · rw [if_neg here, Option.map_eq_some_iff] at split
      obtain ⟨⟨front, back⟩, later, same⟩ := split
      cases same
      obtain ⟨parts, first⟩ := ih later
      exact ⟨by rw [parts, List.cons_append], by simp [first, Ne.symm here]⟩

/-- What the parts of a key say: the service after the separator, or all of the rest if it has
none. -/
inductive Means (separator : Char) (marker rest : List Char) : EventKey → Prop
  | undivided (whole : separator ∉ rest) (named : Text.trimChars rest ≠ []) :
    Means separator marker rest ⟨String.ofList (marker ++ rest),
      String.ofList (Text.trimChars rest)⟩
  | divided (space service : List Char) (parts : rest = space ++ separator :: service)
    (first : separator ∉ space) (spaced : Text.trimChars space ≠ [])
      (named : Text.trimChars service ≠ []) :
    Means separator marker rest ⟨String.ofList (marker ++ space),
      String.ofList (Text.trimChars service)⟩

theorem read_rest_iff {separator : Char} {marker rest : List Char} {key : EventKey} :
    readRest separator marker rest = some key ↔ Means separator marker rest key := by
  unfold readRest
  constructor
  · intro read
    cases split : divide separator rest with
    | none =>
      rw [split] at read
      dsimp only at read
      by_cases blank : Text.trimChars rest = []
      · rw [if_pos blank] at read
        cases read
      · rw [if_neg blank] at read
        cases read
        exact .undivided (divide_eq_none_iff.mp split) blank
    | some parts =>
      obtain ⟨space, service⟩ := parts
      obtain ⟨whole, first⟩ := divide_sound split
      rw [split] at read
      dsimp only at read
      by_cases blank : Text.trimChars space = [] ∨ Text.trimChars service = []
      · rw [if_pos blank] at read
        cases read
      · rw [if_neg blank] at read
        cases read
        obtain ⟨spaced, named⟩ := not_or.mp blank
        exact .divided space service whole first spaced named
  · intro meaning
    cases meaning with
    | undivided whole named =>
      rw [divide_eq_none_iff.mpr whole]
      simp [named]
    | divided space service parts first spaced named =>
      rw [parts, divide_append first]
      simp [spaced, named]

end Rest

/-- A key is read exactly if it follows the grammar, and then it means what its parts say. -/
theorem parse_iff (convention : Convention) (raw : String) (key : EventKey) :
    convention.parse raw = some key ↔
      ∃ marker rest, raw.toList = marker ++ rest ∧
        IsLongest raw.toList (convention.markers.map String.toList) marker ∧
        Means convention.separator marker rest key := by
  unfold parse
  simp only [Option.bind_eq_bind, Option.bind_eq_some_iff, longest_marker_eq_some_iff,
    read_rest_iff]
  constructor
  · rintro ⟨marker, longest, meaning⟩
    obtain ⟨rest, whole⟩ := longest.fits.2
    rw [← whole, List.drop_left] at meaning
    exact ⟨marker, rest, whole.symm, longest, meaning⟩
  · rintro ⟨marker, rest, whole, longest, meaning⟩
    refine ⟨marker, longest, ?_⟩
    rw [whole, List.drop_left]
    exact meaning

end Convention
end HandlerIndex
