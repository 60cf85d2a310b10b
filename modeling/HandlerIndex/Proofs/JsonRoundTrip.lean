import HandlerIndex.Json.Printer
import HandlerIndex.Proofs.JsonReading

/-!
Reading what the settings printer wrote for a JSON value gives the value back, because what is
printed for a value is one of its spellings: with a line break before each item and each member, and
one before the closing sign.
-/
namespace HandlerIndex.Json

/-! Texts. -/
section Texts

theorem hex_digit_shape {n : Nat} (small : n < 16) : HexDigit (hexDigit n) n := ⟨small, .inl rfl⟩

theorem control_spells {c : Char} (control : c < ' ') {units : List Nat} {body : List Char}
    (rest : SpellsUnits units body) :
    SpellsUnits (codeUnits c ++ units) (controlEscape c ++ body) := by
  have small : c.toNat < 32 := control
  have zero : HexDigit '0' 0 := ⟨by decide, .inl rfl⟩
  have spelled := SpellsUnits.code zero zero (hex_digit_shape (show c.toNat / 16 < 16 by omega))
    (hex_digit_shape (show c.toNat % 16 < 16 by omega)) rest
  have number : ((0 * 16 + 0) * 16 + c.toNat / 16) * 16 + c.toNat % 16 = c.toNat := by omega
  rw [number] at spelled
  rw [code_units_small (by omega)]
  exact spelled

theorem escape_spells (c : Char) {units : List Nat} {body : List Char}
    (rest : SpellsUnits units body) :
    SpellsUnits (codeUnits c ++ units) (escapeChar c ++ body) := by
  have short {letter : Char} (listed : (letter, c) ∈ shortEscapes) :
      SpellsUnits (codeUnits c ++ units) (['\\', letter] ++ body) := .short listed rest
  unfold escapeChar
  -- The first seven tests are for the characters with a letter of their own.
  iterate 7
    split
    · subst c
      exact short (by decide)
  by_cases control : c < ' '
  · rw [if_pos control]
    exact control_spells control rest
  · rw [if_neg control]
    exact .plain (Char.not_lt.mp control) ‹c ≠ '"'› ‹c ≠ '\\'› rest

theorem escapes_spell (cs : List Char) :
    SpellsUnits (cs.flatMap codeUnits) (cs.flatMap escapeChar) := by
  induction cs with
  | nil => exact .done
  | cons c cs ih =>
    rw [List.flatMap_cons, List.flatMap_cons]
    exact escape_spells c ih

def textBody : Option String → List Char
  | some content => content.toList.flatMap escapeChar
  | none => ['\\', 'u', 'd', '8', '0', '0']

theorem render_text_eq (content : Option String) :
    renderText content = '"' :: (textBody content ++ ['"']) := by
  cases content <;> rfl

theorem text_body_spells (content : Option String) : SpellsText content (textBody content) := by
  cases content with
  | some content => exact .defined content (escapes_spell content.toList)
  | none =>
    have digit {n : Nat} (small : n < 16) := hex_digit_shape small
    have spelled :=
      SpellsUnits.code (digit (show 13 < 16 by decide)) (digit (show 8 < 16 by decide))
      (digit (show 0 < 16 by decide)) (digit (show 0 < 16 by decide)) .done
    exact .undefined spelled (flat_units_ne_of_half (.inl rfl) fun _ _ none_left => by
      cases none_left)

end Texts

/-! Numbers. -/
section Numbers

theorem digits_start_with_zero (n : Nat) (rest : List Char)
    (zero : Nat.toDigits 10 n = '0' :: rest) :
    rest = [] := by
  induction n using Nat.strongRecOn generalizing rest with
  | ind n ih =>
    rw [Nat.toDigits_eq_if (by decide)] at zero
    by_cases small : n < 10
    · rw [if_pos small] at zero
      exact (List.cons.inj zero).2.symm
    · rw [if_neg small] at zero
      cases above : Nat.toDigits 10 (n / 10) with
      | nil =>
        exact absurd (Nat.length_toDigits_pos (b := 10) (n := n / 10)) (by rw [above]; decide)
      | cons first later =>
        rw [above, List.cons_append] at zero
        obtain ⟨rfl, -⟩ := List.cons.inj zero
        have alone := ih (n / 10) (by omega) later above
        have value : Nat.ofDigitChars 10 (Nat.toDigits 10 (n / 10)) 0 = n / 10 :=
          Nat.ofDigitChars_ten_toDigits
        rw [above, alone] at value
        have none_above : n / 10 = 0 := value.symm
        omega

theorem to_digits_whole (n : Nat) : Whole (Nat.toDigits 10 n) where
  some_digit := List.ne_nil_of_length_pos Nat.length_toDigits_pos
  all c member := Nat.isDigit_of_mem_toDigits (by decide) (by decide) member
  leading rest := digits_start_with_zero n rest

theorem render_number_spells (whole : Option Nat) : SpellsNumber whole (renderNumber whole) := by
  cases whole with
  | none =>
    have zero := to_digits_whole 0
    rw [Nat.toDigits_zero] at zero
    exact .other (.inr rfl) zero .missing .missing (List.cons_ne_nil _ _)
  | some n =>
    have spelled := SpellsNumber.plain (to_digits_whole n)
    rwa [Nat.ofDigitChars_ten_toDigits] at spelled

end Numbers

/-! Lists of items and members. -/
section Lists

theorem line_break_blank (depth : Nat) : AllBlank (lineBreak depth) := by
  intro c member
  rcases List.mem_cons.mp member with rfl | blank
  · exact .inr (.inr (.inl rfl))
  · exact .inl (List.eq_of_mem_replicate blank)

variable {α β : Type}

def placeAll (place : α → List Char → β) (closing : List Char) : List α → List β
  | [] => []
  | [a] => [place a closing]
  | a :: b :: rest => place a [] :: placeAll place closing (b :: rest)

theorem mem_place_all {place : α → List Char → β} {closing : List Char} {values : List α} {b : β}
    (member : b ∈ placeAll place closing values) :
    ∃ a ∈ values, ∃ after, (after = [] ∨ after = closing) ∧ b = place a after := by
  induction values with
  | nil => cases member
  | cons a rest ih =>
    cases rest with
    | nil => exact ⟨a, List.mem_cons_self, closing, .inr rfl, List.mem_singleton.mp member⟩
    | cons next rest =>
      rcases List.mem_cons.mp member with here | later
      · exact ⟨a, List.mem_cons_self, [], .inl rfl, here⟩
      · obtain ⟨other, among, shape⟩ := ih later
        exact ⟨other, List.mem_cons_of_mem _ among, shape⟩

theorem place_all_ne_nil (place : α → List Char → β) (closing : List Char) (a : α) (rest : List α) :
    placeAll place closing (a :: rest) ≠ [] := by
  cases rest <;> exact List.cons_ne_nil _ _

theorem map_place_all {γ : Type} {place : α → List Char → β} {view : β → γ} (own : α → γ)
    (same : ∀ a after, view (place a after) = own a) (closing : List Char) (values : List α) :
    (placeAll place closing values).map view = values.map own := by
  induction values with
  | nil => rfl
  | cons a rest ih =>
    cases rest with
    | nil => rw [placeAll, List.map_singleton, List.map_singleton, same]
    | cons next rest => rw [placeAll, List.map_cons, List.map_cons, ih, same]

theorem intercalate_place_all {place : α → List Char → β} {chars : β → List Char}
    (own : α → List Char) (same : ∀ a after, chars (place a after) = own a ++ after)
    (closing : List Char) (a : α) (rest : List α) :
    [','].intercalate ((placeAll place closing (a :: rest)).map chars) =
      own a ++ rest.flatMap (fun b => ',' :: own b) ++ closing := by
  induction rest generalizing a with
  | nil => simp [placeAll, same]
  | cons next rest ih =>
    have later := ih next
    obtain ⟨second, others, shape⟩ :=
      List.exists_cons_of_ne_nil (place_all_ne_nil place closing next rest)
    rw [shape] at later
    rw [placeAll, shape, List.map_cons, List.map_cons, List.intercalate_cons_cons, ← List.map_cons,
      later, same]
    simp

end Lists

/-! Values. -/
section Values

theorem render_items_eq (depth : Nat) (items : List Json) :
    renderItems depth items = items.flatMap fun item =>
      ',' :: (lineBreak depth ++ render depth item) := by
  induction items with
  | nil => rw [renderItems]; rfl
  | cons item items ih => rw [renderItems, ih, List.flatMap_cons]; simp

theorem render_members_eq (depth : Nat) (members : List (Option String × Json)) :
    renderMembers depth members = members.flatMap fun member =>
      ',' :: (lineBreak depth ++ renderText member.1 ++ ':' :: ' ' :: render depth member.2) := by
  induction members with
  | nil => rw [renderMembers]; rfl
  | cons member members ih =>
    obtain ⟨name, value⟩ := member
    rw [renderMembers, ih, List.flatMap_cons]
    simp

def placeItem (depth : Nat) (item : Json) (after : List Char) : Placed :=
  ⟨lineBreak depth, item, render depth item, after⟩

def placeMember (depth : Nat) (member : Option String × Json) (after : List Char) : Member :=
  ⟨lineBreak depth, member.1, textBody member.1, [],
    ⟨[' '], member.2, render depth member.2, after⟩⟩

theorem closing_blank {depth : Nat} {after : List Char}
    (sort : after = [] ∨ after = lineBreak depth) :
    AllBlank after := by
  rcases sort with rfl | rfl
  · exact List.forall_mem_nil _
  · exact line_break_blank depth

theorem array_spells (depth : Nat) (item : Json) (items : List Json)
    (inner : ∀ value ∈ item :: items, Spells value (render (depth + 1) value)) :
    Spells (.array (item :: items)) (render depth (.array (item :: items))) := by
  have chars :=
    intercalate_place_all (fun value => lineBreak (depth + 1) ++ render (depth + 1) value)
    (fun value after => show (placeItem (depth + 1) value after).chars = _ from rfl)
      (lineBreak depth) item items
  have values := map_place_all (fun value => value)
    (fun value after => show (placeItem (depth + 1) value after).value = _ from rfl)
      (lineBreak depth) (item :: items)
  have spelled := Spells.items (placeAll (placeItem (depth + 1)) (lineBreak depth) (item :: items))
    (place_all_ne_nil _ _ _ _) ?_ ?_
  · rw [values, List.map_id', chars] at spelled
    rw [render, render_items_eq]
    simpa using spelled
  · intro placed member
    obtain ⟨_, _, after, sort, rfl⟩ := mem_place_all member
    exact ⟨line_break_blank _, closing_blank sort⟩
  · intro placed member
    obtain ⟨value, among, after, -, rfl⟩ := mem_place_all member
    exact inner value among

theorem object_spells (depth : Nat) (member : Option String × Json)
    (members : List (Option String × Json))
    (inner : ∀ pair ∈ member :: members, Spells pair.2 (render (depth + 1) pair.2)) :
    Spells (.object (member :: members)) (render depth (.object (member :: members))) := by
  have chars := intercalate_place_all
    (fun pair : Option String × Json =>
      lineBreak (depth + 1) ++ (renderText pair.1 ++ ':' :: ' ' :: render (depth + 1) pair.2))
    (fun pair after => show (placeMember (depth + 1) pair after).chars = _ by
      simp [placeMember, Member.chars, Placed.chars, render_text_eq])
    (lineBreak depth) member members
  have pairs := map_place_all (fun pair => pair)
    (fun pair after => show (placeMember (depth + 1) pair after).pair = _ from rfl)
    (lineBreak depth) (member :: members)
  have spelled :=
    Spells.members (placeAll (placeMember (depth + 1)) (lineBreak depth) (member :: members))
    (place_all_ne_nil _ _ _ _) ?_ ?_
  · rw [pairs, List.map_id', chars] at spelled
    obtain ⟨name, value⟩ := member
    rw [render, render_members_eq]
    simpa using spelled
  · intro placed among
    obtain ⟨pair, _, after, sort, rfl⟩ := mem_place_all among
    have one_space : AllBlank [' '] := fun c only => .inl (List.mem_singleton.mp only)
    exact ⟨line_break_blank _, text_body_spells pair.1, List.forall_mem_nil _, one_space,
      closing_blank sort⟩
  · intro placed among
    obtain ⟨pair, inside, after, -, rfl⟩ := mem_place_all among
    exact inner pair inside

/-- Values from the values inside them. -/
@[elab_as_elim]
theorem value_induction {motive : Json → Prop} (null : motive .null)
    (bool : ∀ value, motive (.bool value)) (number : ∀ whole, motive (.number whole))
    (text : ∀ content, motive (.text content))
    (array : ∀ items, (∀ item ∈ items, motive item) → motive (.array items))
    (object : ∀ members, (∀ member ∈ members, motive member.2) → motive (.object members))
    (value : Json) :
    motive value := by
  induction n : sizeOf value using Nat.strongRecOn generalizing value with
  | ind n ih =>
    subst n
    cases value with
    | null => exact null
    | bool value => exact bool value
    | number whole => exact number whole
    | text content => exact text content
    | array items =>
      refine array items fun item member => ih _ ?_ item rfl
      have smaller := List.sizeOf_lt_of_mem member
      simp only [Json.array.sizeOf_spec]
      omega
    | object members =>
      refine object members fun member among => ih _ ?_ member.2 rfl
      have smaller := List.sizeOf_lt_of_mem among
      obtain ⟨name, value⟩ := member
      simp only [Json.object.sizeOf_spec, Prod.mk.sizeOf_spec] at smaller ⊢
      omega

theorem render_spells (value : Json) (depth : Nat) : Spells value (render depth value) := by
  induction value using value_induction generalizing depth with
  | null => exact .null
  | bool value =>
    cases value with
    | true => exact .trueWord
    | false => exact .falseWord
  | number whole =>
    rw [render]
    exact .number (render_number_spells whole)
  | text content =>
    rw [render, render_text_eq]
    exact .text (text_body_spells content)
  | array items ih =>
    cases items with
    | nil =>
      rw [render]
      exact .noItems (List.forall_mem_nil _)
    | cons item items => exact array_spells depth item items fun value member =>
                           ih value member (depth + 1)
  | object members ih =>
    cases members with
    | nil =>
      rw [render]
      exact .noMembers (List.forall_mem_nil _)
    | cons member members => exact object_spells depth member members fun pair among =>
                               ih pair among (depth + 1)

theorem pretty_spelled (value : Json) : SpelledBy value value.pretty := by
  have unspaced : AllBlank [] := List.forall_mem_nil _
  refine ⟨⟨[], value, render 0 value, []⟩, ⟨unspaced, unspaced⟩, rfl, render_spells value 0, ?_⟩
  rw [pretty, String.toList_ofList, Placed.chars, List.append_nil, List.nil_append]

theorem parse_pretty (value : Json) : parse? value.pretty = some value :=
  parse_spelled (pretty_spelled value)

end Values
end HandlerIndex.Json
