import HandlerIndex.Proofs.JsonSpelling

/-!
The reader of the settings file reads every JSON text. Blanks, numbers and values come one after
another, each with any characters behind it; a value uses no more fuel than two units for each of
its characters. Left out are texts that spell nothing.
-/
namespace HandlerIndex.Json

/-! Blanks. -/
section Blanks

theorem skip_blanks_cons {c : Char} (sign : isBlank c = false) (rest : List Char) :
    skipBlanks (c :: rest) = c :: rest := by
  simp [skipBlanks, sign]

theorem AllBlank.is_blank {blanks : List Char} (blank : AllBlank blanks) :
    ∀ c ∈ blanks, isBlank c = true := by
  intro c member
  rcases blank c member with rfl | rfl | rfl | rfl <;> rfl

theorem AllBlank.skip {blanks : List Char} (blank : AllBlank blanks) (rest : List Char) :
    skipBlanks (blanks ++ rest) = skipBlanks rest :=
  List.dropWhile_append_of_pos blank.is_blank

section Skip
variable {blanks : List Char} (blank : AllBlank blanks) (fuel : Nat) (input : List Char)
include blank

theorem read_value_skip : readValue fuel (blanks ++ input) = readValue fuel input := by
  cases fuel with
  | zero => rfl
  | succ fuel => rw [readValue, readValue, blank.skip]

theorem read_items_skip : readItems fuel (blanks ++ input) = readItems fuel input := by
  cases fuel with
  | zero => rfl
  | succ fuel => rw [readItems, readItems, read_value_skip blank]

theorem read_members_skip : readMembers fuel (blanks ++ input) = readMembers fuel input := by
  cases fuel with
  | zero => rfl
  | succ fuel => rw [readMembers, readMembers, blank.skip]

end Skip
end Blanks

/-! Numbers. -/
section Numbers

/-- What follows a number cannot be read as a part of it. -/
def EndsNumber (rest : List Char) : Prop :=
  ∀ c ∈ rest.head?, c.isDigit = false ∧ c ≠ '.' ∧ c ≠ 'e' ∧ c ≠ 'E'

theorem Digits.read {digits : List Char} (shape : Digits digits) {rest : List Char}
    (stops : ∀ c ∈ rest.head?, c.isDigit = false) :
    readDigits (digits ++ rest) = some (digits, rest) := by
  have stop : rest.takeWhile Char.isDigit = [] ∧ rest.dropWhile Char.isDigit = rest := by
    cases rest with
    | nil => exact ⟨rfl, rfl⟩
    | cons c tail => simp [stops c rfl]
  rw [readDigits, List.takeWhile_append_of_pos shape.all, List.dropWhile_append_of_pos shape.all,
    stop.1, stop.2, List.append_nil]
  cases digits with
  | nil => exact absurd rfl shape.some_digit
  | cons first later => rfl

theorem Whole.read {digits : List Char} (shape : Whole digits) {rest : List Char}
    (stops : ∀ c ∈ rest.head?, c.isDigit = false) :
    readWhole (digits ++ rest) = some (Nat.ofDigitChars 10 digits 0, rest) := by
  rw [readWhole, shape.toDigits.read stops]
  simp only [bind, Option.bind]
  split
  case h_1 second later after starts =>
    cases shape.leading _ (Prod.mk.inj starts).1
  case h_2 whole after _ same =>
    obtain ⟨rfl, rfl⟩ := Prod.mk.inj same
    rfl

theorem Fraction.read {fraction : List Char} (divided : Fraction fraction) {rest : List Char}
    (stops : ∀ c ∈ rest.head?, c.isDigit = false ∧ c ≠ '.') :
    readFraction (fraction ++ rest) = some (decide (fraction ≠ []), rest) := by
  cases divided with
  | missing =>
    rw [List.nil_append, readFraction]
    · rfl
    · intro input same
      exact absurd rfl (stops '.' (by rw [same]; rfl)).2
  | given shape =>
    rw [List.cons_append, readFraction, shape.read fun c head => (stops c head).1]
    rfl

theorem Digits.head {digits : List Char} (shape : Digits digits) :
    ∃ first later, digits = first :: later ∧ first.isDigit = true := by
  obtain ⟨first, later, rfl⟩ := List.exists_cons_of_ne_nil shape.some_digit
  exact ⟨first, later, rfl, shape.all first List.mem_cons_self⟩

theorem Digits.skip_sign {digits : List Char} (shape : Digits digits) {sign : List Char}
    (signed : sign = [] ∨ sign = ['+'] ∨ sign = ['-']) (rest : List Char) :
    skipSign (sign ++ digits ++ rest) = digits ++ rest := by
  rcases signed with rfl | rfl | rfl
  · obtain ⟨first, later, rfl, digit⟩ := shape.head
    rw [List.nil_append, List.cons_append, skipSign]
    · intro input same
      obtain ⟨rfl, -⟩ := List.cons.inj same
      cases digit
    · intro input same
      obtain ⟨rfl, -⟩ := List.cons.inj same
      cases digit
  · rfl
  · rfl

theorem Exponent.read {exponent : List Char} (scaled : Exponent exponent) {rest : List Char}
    (ends : EndsNumber rest) :
    readExponent (exponent ++ rest) = some (decide (exponent ≠ []), rest) := by
  cases scaled with
  | missing =>
    rw [List.nil_append]
    unfold readExponent
    split
    · exact absurd rfl (ends 'e' rfl).2.2.1
    · exact absurd rfl (ends 'E' rfl).2.2.2
    · rfl
  | @given letter sign digits lettered signed shape =>
    have skipped := shape.skip_sign signed rest
    have read := shape.read fun c head => (ends c head).1
    rcases lettered with rfl | rfl
    · rw [List.cons_append, readExponent, skipped, read]
      rfl
    · rw [List.cons_append, readExponent, skipped, read]
      rfl

theorem Fraction.stops {fraction : List Char} (divided : Fraction fraction) {rest : List Char}
    (stops : ∀ c ∈ rest.head?, c.isDigit = false) :
    ∀ c ∈ (fraction ++ rest).head?, c.isDigit = false := by
  cases divided with
  | missing => exact stops
  | given shape =>
    rintro c ⟨⟩
    rfl

theorem Exponent.stops {exponent : List Char} (scaled : Exponent exponent) {rest : List Char}
    (ends : EndsNumber rest) :
    ∀ c ∈ (exponent ++ rest).head?, c.isDigit = false ∧ c ≠ '.' := by
  cases scaled with
  | missing => exact fun c head => ⟨(ends c head).1, (ends c head).2.1⟩
  | given lettered signed shape =>
    rintro c ⟨⟩
    rcases lettered with rfl | rfl <;> decide

theorem read_unsigned_spelled {digits fraction exponent rest : List Char} (shape : Whole digits)
    (divided : Fraction fraction) (scaled : Exponent exponent) (ends : EndsNumber rest) :
    readUnsigned (digits ++ (fraction ++ (exponent ++ rest))) =
      some (if fraction ++ exponent = [] then some (Nat.ofDigitChars 10 digits 0) else none,
        rest) := by
  have after_fraction := scaled.stops ends
  have whole := shape.read (divided.stops fun c head => (after_fraction c head).1)
  simp only [readUnsigned, whole, divided.read after_fraction, scaled.read ends, bind, Option.bind]
  by_cases first : fraction = []
  · by_cases second : exponent = [] <;> simp [first, second]
  · simp [first]

theorem SpellsNumber.head {whole : Option Nat} {chars : List Char}
    (shape : SpellsNumber whole chars) :
    ∃ first later, chars = first :: later ∧ (first = '-' ∨ first.isDigit = true) := by
  cases shape with
  | plain shape =>
    obtain ⟨first, later, rfl, digit⟩ := shape.head
    exact ⟨first, later, rfl, .inr digit⟩
  | other signed shape _ _ _ =>
    rcases signed with rfl | rfl
    · obtain ⟨first, later, rfl, digit⟩ := shape.head
      exact ⟨first, _, rfl, .inr digit⟩
    · exact ⟨'-', _, rfl, .inl rfl⟩

theorem read_number_unsigned {first : Char} (digit : first.isDigit = true) (later : List Char) :
    readNumber (first :: later) = readUnsigned (first :: later) := by
  rw [readNumber]
  intro input same
  obtain ⟨rfl, -⟩ := List.cons.inj same
  cases digit

theorem read_number_spelled {whole : Option Nat} {chars : List Char}
    (shape : SpellsNumber whole chars) {rest : List Char} (ends : EndsNumber rest) :
    readNumber (chars ++ rest) = some (whole, rest) := by
  cases shape with
  | plain shape =>
    have read := read_unsigned_spelled shape .missing .missing ends
    obtain ⟨first, later, rfl, digit⟩ := shape.head
    exact (read_number_unsigned digit _).trans read
  | @other sign digits fraction exponent signed shape divided scaled marked =>
    have read := read_unsigned_spelled shape divided scaled ends
    rw [List.append_assoc, List.append_assoc, List.append_assoc]
    rcases signed with rfl | rfl
    · rw [if_neg (by simpa using marked)] at read
      obtain ⟨first, later, rfl, digit⟩ := shape.head
      exact (read_number_unsigned digit _).trans read
    · rw [List.singleton_append, readNumber, read]
      rfl

end Numbers

/-! Values. -/
section Values

theorem number_head_not_blank {first : Char} (sort : first = '-' ∨ first.isDigit = true) :
    isBlank first = false ∧ first ≠ ']' := by
  have other {c : Char} (no_sign : c ≠ '-') (no_digit : c.isDigit = false) : first ≠ c := by
    rintro rfl
    rcases sort with same | digit
    · exact no_sign same
    · rw [no_digit] at digit
      cases digit
  refine ⟨?_, other (by decide) rfl⟩
  simp only [isBlank, Bool.or_eq_false_iff, beq_eq_false_iff_ne]
  exact ⟨⟨⟨other (by decide) rfl, other (by decide) rfl⟩, other (by decide) rfl⟩,
    other (by decide) rfl⟩

/-- A spelled value begins with a sign of its own, which is no blank and closes no array. -/
theorem Spells.head {value : Json} {text : List Char} (spelled : Spells value text) :
    ∃ first later, text = first :: later ∧ isBlank first = false ∧ first ≠ ']' := by
  cases spelled with
  | number shape =>
    obtain ⟨first, later, rfl, sort⟩ := shape.head
    exact ⟨first, later, rfl, number_head_not_blank sort⟩
  | _ => exact ⟨_, _, rfl, rfl, by decide⟩

theorem AllBlank.ends {blanks : List Char} (blank : AllBlank blanks) {rest : List Char}
    (ends : EndsNumber rest) :
    EndsNumber (blanks ++ rest) := by
  cases blanks with
  | nil => exact ends
  | cons first later =>
    rintro _ ⟨⟩
    rcases blank first List.mem_cons_self with rfl | rfl | rfl | rfl <;> decide

theorem ends_sign {c : Char} (sign : c ∈ [',', ']', '\x7d']) (rest : List Char) :
    EndsNumber (c :: rest) := by
  rintro _ ⟨⟩
  simp only [List.mem_cons, List.not_mem_nil, or_false] at sign
  rcases sign with rfl | rfl | rfl <;> decide

-- Two units of fuel for each character are enough: every call but that for a list reads a character
-- itself.
/-- A text is read as a value, whatever follows it. -/
def Reads (value : Json) (text : List Char) : Prop :=
  ∀ fuel rest, 2 * text.length ≤ fuel → EndsNumber rest →
    readValue fuel (text ++ rest) = some (value, rest)

theorem read_value_number (fuel : Nat) {first : Char} (sort : first = '-' ∨ first.isDigit = true)
    (later : List Char) :
    readValue (fuel + 1) (first :: later) =
      (readNumber (first :: later)).map fun read => (.number read.1, read.2) := by
  rw [readValue, skip_blanks_cons (number_head_not_blank sort).1]
  have other (c : Char) (sign : c ≠ '-') (letter : c.isDigit = false) (rest : List Char) :
      first :: later ≠ c :: rest := by
    intro same
    obtain ⟨rfl, -⟩ := List.cons.inj same
    rcases sort with minus | digit
    · exact sign minus
    · exact Bool.eq_false_iff.mp letter digit
  split
  case h_7 => cases readNumber (first :: later) <;> rfl
  all_goals exact absurd ‹_› (other _ (by decide) rfl _)

theorem read_value_text (fuel : Nat) (later : List Char) :
    readValue (fuel + 1) ('"' :: later) = (readText later).map fun read =>
      (.text read.1, read.2) := by
  rw [readValue, skip_blanks_cons rfl]
  cases read : readText later with
  | none => simp only [read]; rfl
  | some parts => simp only [read]; rfl

theorem read_value_items (fuel : Nat) {blanks : List Char} (blank : AllBlank blanks) {first : Char}
    (sign : isBlank first = false) (other : first ≠ ']') (later : List Char) :
    readValue (fuel + 1) ('[' :: (blanks ++ first :: later)) =
      (readItems fuel (blanks ++ first :: later)).map fun read => (.array read.1, read.2) := by
  rw [readValue, skip_blanks_cons rfl, read_items_skip blank]
  simp only [blank.skip, skip_blanks_cons sign]
  split
  case h_1 rest same => exact absurd (List.cons.inj same).1 other
  case h_2 => cases readItems fuel (first :: later) <;> rfl

theorem read_value_members (fuel : Nat) {blanks : List Char} (blank : AllBlank blanks)
    (later : List Char) :
    readValue (fuel + 1) ('\x7b' :: (blanks ++ '"' :: later)) =
      (readMembers fuel (blanks ++ '"' :: later)).map fun read => (.object read.1, read.2) := by
  rw [readValue, skip_blanks_cons rfl, read_members_skip blank]
  simp only [blank.skip, skip_blanks_cons (show isBlank '"' = false from rfl)]
  split
  case h_1 rest same => cases (List.cons.inj same).1
  case h_2 => cases readMembers fuel ('"' :: later) <;> rfl

theorem intercalate_cons (first : List Char) (rest : List (List Char)) :
    ∃ behind, [','].intercalate (first :: rest) = first ++ behind := by
  cases rest with
  | nil => exact ⟨[], by simp⟩
  | cons second rest => exact ⟨_, by rw [List.intercalate_cons_cons, List.append_assoc]⟩

section Lists
variable (fuel : Nat)

theorem read_placed {placed : Placed} (spaced : placed.Spaced)
    (reads : Reads placed.value placed.text) (enough : 2 * placed.chars.length ≤ fuel)
    {rest : List Char} (ends : EndsNumber rest) :
    readValue fuel (placed.chars ++ rest) = some (placed.value, placed.after ++ rest) := by
  rw [Placed.chars, List.append_assoc, List.append_assoc, read_value_skip spaced.before]
  refine reads fuel _ ?_ (spaced.after.ends ends)
  rw [Placed.chars] at enough
  simp only [List.length_append] at enough
  omega

theorem read_items_spelled {items : List Placed} (some_item : items ≠ [])
    (spaced : ∀ item ∈ items, item.Spaced) (reads : ∀ item ∈ items, Reads item.value item.text)
    (enough : 2 * ([','].intercalate (items.map Placed.chars)).length + 1 ≤ fuel)
    (rest : List Char) :
    readItems fuel ([','].intercalate (items.map Placed.chars) ++ ']' :: rest) =
      some (items.map (·.value), rest) := by
  induction items generalizing fuel with
  | nil => exact absurd rfl some_item
  | cons item more ih =>
    obtain ⟨fuel, rfl⟩ := Nat.exists_eq_add_of_le' (Nat.le_of_add_left_le enough)
    have blank := spaced item List.mem_cons_self
    have read := reads item List.mem_cons_self
    cases more with
    | nil =>
      have placed :=
        read_placed fuel blank read (by simpa using enough) (ends_sign (c := ']') (by decide) rest)
      simp only [List.map_cons, List.map_nil, List.intercalate_singleton]
      rw [readItems, placed]
      simp only [bind, Option.bind, blank.after.skip,
        skip_blanks_cons (show isBlank ']' = false from rfl)]
    | cons next more =>
      simp only [List.map_cons, List.intercalate_cons_cons, List.append_assoc,
        List.singleton_append, List.length_append, List.length_cons] at enough ⊢
      have placed :=
        fun rest => read_placed fuel blank read (by omega) (ends_sign (c := ',') (by decide) rest)
      have later :=
        ih fuel (List.cons_ne_nil _ _)
          (fun other member => spaced other (List.mem_cons_of_mem _ member))
          (fun other member => reads other (List.mem_cons_of_mem _ member))
          (by simp only [List.map_cons]; omega)
      simp only [List.map_cons] at later
      rw [List.cons_append, readItems, placed]
      simp only [bind, Option.bind, blank.after.skip,
        skip_blanks_cons (show isBlank ',' = false from rfl), later]

theorem member_chars_append (member : Member) (rest : List Char) :
    member.chars ++ rest = member.before ++ '"' :: (member.body ++ '"' :: (member.between ++ ':' ::
      (member.placed.chars ++ rest))) := by
  simp [Member.chars]

theorem read_members_spelled {members : List Member} (some_member : members ≠ [])
    (named : ∀ member ∈ members, member.Named)
    (reads : ∀ member ∈ members, Reads member.placed.value member.placed.text)
    (enough : 2 * ([','].intercalate (members.map Member.chars)).length + 1 ≤ fuel)
    (rest : List Char) :
    readMembers fuel ([','].intercalate (members.map Member.chars) ++ '\x7d' :: rest) =
      some (members.map Member.pair, rest) := by
  induction members generalizing fuel with
  | nil => exact absurd rfl some_member
  | cons member more ih =>
    obtain ⟨fuel, rfl⟩ := Nat.exists_eq_add_of_le' (Nat.le_of_add_left_le enough)
    have shape := named member List.mem_cons_self
    have read := reads member List.mem_cons_self
    have shorter : member.placed.chars.length ≤ member.chars.length := by
      simp only [Member.chars, List.length_append, List.length_cons]
      omega
    have quotes : isBlank '"' = false := rfl
    have colon : isBlank ':' = false := rfl
    cases more with
    | nil =>
      have ending : isBlank '\x7d' = false := rfl
      have placed := read_placed fuel shape.spaced read (by simp at enough; omega)
        (ends_sign (c := '\x7d') (by decide) rest)
      simp only [List.map_cons, List.map_nil, List.intercalate_singleton]
      rw [readMembers, member_chars_append, shape.before.skip, skip_blanks_cons quotes]
      simp only [read_text_spelled shape.name, bind, Option.bind, shape.between.skip,
        skip_blanks_cons colon, placed, shape.spaced.after.skip, skip_blanks_cons ending,
        Member.pair]
    | cons next more =>
      have comma : isBlank ',' = false := rfl
      simp only [List.map_cons, List.intercalate_cons_cons, List.append_assoc,
        List.singleton_append, List.length_append, List.length_cons] at enough ⊢
      have placed :=
        fun rest =>
          read_placed fuel shape.spaced read (by omega) (ends_sign (c := ',') (by decide) rest)
      have later :=
        ih fuel (List.cons_ne_nil _ _)
          (fun other among => named other (List.mem_cons_of_mem _ among))
          (fun other among => reads other (List.mem_cons_of_mem _ among))
          (by simp only [List.map_cons]; omega)
      simp only [List.map_cons] at later
      rw [List.cons_append, readMembers, member_chars_append, shape.before.skip,
        skip_blanks_cons quotes]
      simp only [read_text_spelled shape.name, bind, Option.bind, shape.between.skip,
        skip_blanks_cons colon, placed, shape.spaced.after.skip, skip_blanks_cons comma, later,
        Member.pair]

end Lists

theorem reads_of_step {value : Json} {first : Char} {later : List Char}
    (step : ∀ fuel rest, 2 * later.length + 1 ≤ fuel → EndsNumber rest →
      readValue (fuel + 1) (first :: (later ++ rest)) = some (value, rest)) :
        Reads value (first :: later) := by
  intro fuel rest enough ends
  rw [List.length_cons] at enough
  obtain ⟨less, rfl⟩ : ∃ less, fuel = less + 1 := ⟨fuel - 1, by omega⟩
  exact step less rest (by omega) ends

theorem reads_items {items : List Placed} (some_item : items ≠ [])
    (spaced : ∀ item ∈ items, item.Spaced) (spelled : ∀ item ∈ items, Spells item.value item.text)
    (reads : ∀ item ∈ items, Reads item.value item.text) :
    Reads (.array (items.map (·.value)))
      ('[' :: ([','].intercalate (items.map Placed.chars) ++ [']'])) := by
  refine reads_of_step fun fuel rest enough _ => ?_
  rw [List.length_append, List.length_singleton] at enough
  have read := read_items_spelled fuel some_item spaced reads (by omega) rest
  obtain ⟨item, more, rfl⟩ := List.exists_cons_of_ne_nil some_item
  obtain ⟨first, later, begins, sign, other⟩ := (spelled item List.mem_cons_self).head
  obtain ⟨behind, joined⟩ := intercalate_cons item.chars (more.map Placed.chars)
  have opened : [','].intercalate ((item :: more).map Placed.chars) ++ ']' :: rest =
      item.before ++ first :: (later ++ item.after ++ behind ++ ']' :: rest) := by
    rw [List.map_cons, joined, Placed.chars, begins]
    simp
  rw [List.append_assoc, List.singleton_append]
  rw [opened] at read ⊢
  rw [read_value_items fuel (spaced item List.mem_cons_self).before sign other, read]
  rfl

theorem reads_members {members : List Member} (some_member : members ≠ [])
    (named : ∀ member ∈ members, member.Named)
    (reads : ∀ member ∈ members, Reads member.placed.value member.placed.text) :
    Reads (.object (members.map Member.pair))
      ('\x7b' :: ([','].intercalate (members.map Member.chars) ++ ['\x7d'])) := by
  refine reads_of_step fun fuel rest enough _ => ?_
  rw [List.length_append, List.length_singleton] at enough
  have read := read_members_spelled fuel some_member named reads (by omega) rest
  obtain ⟨member, more, rfl⟩ := List.exists_cons_of_ne_nil some_member
  obtain ⟨behind, joined⟩ := intercalate_cons member.chars (more.map Member.chars)
  have opened := member_chars_append member (behind ++ '\x7d' :: rest)
  rw [← List.append_assoc, ← joined] at opened
  rw [List.append_assoc, List.singleton_append, List.map_cons]
  rw [List.map_cons, opened] at read
  rw [opened, read_value_members fuel (named member List.mem_cons_self).before, read]
  rfl

theorem Spells.reads {value : Json} {text : List Char} (spelled : Spells value text) :
    Reads value text := by
  induction spelled with
  | null => exact reads_of_step fun _ _ _ _ => rfl
  | trueWord => exact reads_of_step fun _ _ _ _ => rfl
  | falseWord => exact reads_of_step fun _ _ _ _ => rfl
  | number shape =>
    obtain ⟨first, later, rfl, sort⟩ := shape.head
    refine reads_of_step fun fuel rest _ ends => ?_
    have read := read_number_spelled shape ends
    rw [List.cons_append] at read
    rw [read_value_number fuel sort, read]
    rfl
  | text shape =>
    refine reads_of_step fun fuel rest _ _ => ?_
    rw [List.append_assoc, List.singleton_append, read_value_text, read_text_spelled shape]
    rfl
  | noItems blank =>
    refine reads_of_step fun fuel rest _ _ => ?_
    rw [List.append_assoc, List.singleton_append, readValue, skip_blanks_cons rfl]
    simp only [blank.skip, skip_blanks_cons (show isBlank ']' = false from rfl)]
  | items items some_item spaced spelled ih => exact reads_items some_item spaced spelled ih
  | noMembers blank =>
    refine reads_of_step fun fuel rest _ _ => ?_
    rw [List.append_assoc, List.singleton_append, readValue, skip_blanks_cons rfl]
    simp only [blank.skip, skip_blanks_cons (show isBlank '\x7d' = false from rfl)]
  | members members some_member named _ ih => exact reads_members some_member named ih

/-- A whole text that spells a value is read as this value. -/
theorem parse_spelled {value : Json} {content : String} (spelled : SpelledBy value content) :
    parse? content = some value := by
  obtain ⟨placed, spaced, rfl, shape, whole⟩ := spelled
  have none_left : EndsNumber [] := fun _ missing => by cases missing
  have enough : 2 * placed.chars.length ≤ 2 * content.length + 2 := by
    rw [← String.length_toList, whole]
    omega
  have read := read_placed _ spaced shape.reads enough none_left
  have skipped := spaced.after.skip []
  rw [List.append_nil] at read skipped
  rw [List.append_nil] at read
  rw [parse?, whole, read]
  simp only [skipped]
  rfl

end Values
end HandlerIndex.Json
