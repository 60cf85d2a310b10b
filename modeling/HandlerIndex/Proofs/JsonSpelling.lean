import HandlerIndex.Json.Reader
import Mathlib

/-!
The grammar of JSON texts, such as the settings file is. A value can be spelled in many ways: with
blanks around every part, with escapes for any character of a text, with values inside it to any
depth. Here are the spellings, and that the reader understands what stands between quotes: the
characters and escapes there give code units, and these are put together to a text. Left out is what
the digits of a number are worth unless it is whole.
-/
namespace HandlerIndex.Json

/-! The grammar. -/
section Grammar

def AllBlank (blanks : List Char) : Prop := ∀ c ∈ blanks, c = ' ' ∨ c = '\t' ∨ c = '\n' ∨ c = '\r'

instance (blanks : List Char) : Decidable (AllBlank blanks) :=
  List.decidableBAll (fun c => c = ' ' ∨ c = '\t' ∨ c = '\n' ∨ c = '\r') blanks

/-- The code units of a character: one, or the two halves of a surrogate pair. -/
def codeUnits (c : Char) : List Nat :=
  if c.toNat < 0x10000 then [c.toNat]
  else [0xd800 + (c.toNat - 0x10000) / 0x400, 0xdc00 + (c.toNat - 0x10000) % 0x400]

def shortEscapes : List (Char × Char) :=
  [('"', '"'), ('\\', '\\'), ('/', '/'), ('b', '\x08'), ('f', '\x0c'), ('n', '\n'), ('r', '\r'),
    ('t', '\t')]

def HexDigit (digit : Char) (value : Nat) : Prop :=
  value < 16 ∧ (digit = Nat.digitChar value ∨ digit = (Nat.digitChar value).toUpper)

instance (digit : Char) (value : Nat) : Decidable (HexDigit digit value) :=
  inferInstanceAs
    (Decidable (value < 16 ∧ (digit = Nat.digitChar value ∨ digit = (Nat.digitChar value).toUpper)))

inductive SpellsUnits : List Nat → List Char → Prop
  | done : SpellsUnits [] []
  | plain {c : Char} {units : List Nat} {body : List Char} (visible : ' ' ≤ c) (quotes : c ≠ '"')
    (slash : c ≠ '\\')
    (rest : SpellsUnits units body) : SpellsUnits (codeUnits c ++ units) (c :: body)
  | short {letter c : Char} {units : List Nat} {body : List Char}
    (listed : (letter, c) ∈ shortEscapes)
    (rest : SpellsUnits units body) : SpellsUnits (codeUnits c ++ units) ('\\' :: letter :: body)
  | code {a b c d : Char} {w x y z : Nat} {units : List Nat} {body : List Char}
    (first : HexDigit a w) (second : HexDigit b x) (third : HexDigit c y) (fourth : HexDigit d z)
    (rest : SpellsUnits units body) :
    SpellsUnits ((((w * 16 + x) * 16 + y) * 16 + z) :: units)
      ('\\' :: 'u' :: a :: b :: c :: d :: body)

/-- The text that stands between two quotes. Code units that are those of no text leave it
undefined. -/
inductive SpellsText : Option String → List Char → Prop
  | defined (content : String) {body : List Char}
    (units : SpellsUnits (content.toList.flatMap codeUnits) body) :
    SpellsText (some content) body
  | undefined {units : List Nat} {body : List Char} (spelled : SpellsUnits units body)
    (broken : ∀ content : List Char, units ≠ content.flatMap codeUnits) : SpellsText none body

structure Digits (digits : List Char) : Prop where
  some_digit : digits ≠ []
  all : ∀ c ∈ digits, c.isDigit = true

structure Whole (digits : List Char) : Prop extends Digits digits where
  leading : ∀ rest, digits = '0' :: rest → rest = []

inductive Fraction : List Char → Prop
  | missing : Fraction []
  | given {digits : List Char} (shape : Digits digits) : Fraction ('.' :: digits)

inductive Exponent : List Char → Prop
  | missing : Exponent []
  | given {letter : Char} {sign digits : List Char} (lettered : letter = 'e' ∨ letter = 'E')
    (signed : sign = [] ∨ sign = ['+'] ∨ sign = ['-']) (shape : Digits digits) :
    Exponent (letter :: (sign ++ digits))

/-- A number, and its value if it is whole and written without sign, fraction and exponent. -/
inductive SpellsNumber : Option Nat → List Char → Prop
  | plain {digits : List Char} (shape : Whole digits) :
    SpellsNumber (some (Nat.ofDigitChars 10 digits 0)) digits
  | other {sign digits fraction exponent : List Char} (signed : sign = [] ∨ sign = ['-'])
    (shape : Whole digits)
    (divided : Fraction fraction) (scaled : Exponent exponent)
      (marked : sign ++ fraction ++ exponent ≠ []) :
    SpellsNumber none (sign ++ digits ++ fraction ++ exponent)

structure Placed where
  before : List Char
  value : Json
  text : List Char
  after : List Char

def Placed.chars (placed : Placed) : List Char := placed.before ++ placed.text ++ placed.after

structure Placed.Spaced (placed : Placed) : Prop where
  before : AllBlank placed.before
  after : AllBlank placed.after

structure Member where
  before : List Char
  name : Option String
  body : List Char
  between : List Char
  placed : Placed

def Member.chars (member : Member) : List Char :=
  member.before ++ '"' :: member.body ++ '"' :: member.between ++ ':' :: member.placed.chars

def Member.pair (member : Member) : Option String × Json := (member.name, member.placed.value)

structure Member.Named (member : Member) : Prop where
  before : AllBlank member.before
  name : SpellsText member.name member.body
  between : AllBlank member.between
  spaced : member.placed.Spaced

inductive Spells : Json → List Char → Prop
  | null : Spells .null ['n', 'u', 'l', 'l']
  | trueWord : Spells (.bool true) ['t', 'r', 'u', 'e']
  | falseWord : Spells (.bool false) ['f', 'a', 'l', 's', 'e']
  | number {whole : Option Nat} {chars : List Char} (shape : SpellsNumber whole chars) :
    Spells (.number whole) chars
  | text {content : Option String} {body : List Char} (shape : SpellsText content body) :
    Spells (.text content) ('"' :: (body ++ ['"']))
  | noItems {blanks : List Char} (blank : AllBlank blanks) :
    Spells (.array []) ('[' :: (blanks ++ [']']))
  | items (items : List Placed) (some_item : items ≠ []) (spaced : ∀ item ∈ items, item.Spaced)
    (spelled : ∀ item ∈ items, Spells item.value item.text) :
    Spells (.array (items.map (·.value)))
      ('[' :: ([','].intercalate (items.map Placed.chars) ++ [']']))
  | noMembers {blanks : List Char} (blank : AllBlank blanks) :
    Spells (.object []) ('\x7b' :: (blanks ++ ['\x7d']))
  | members (members : List Member) (some_member : members ≠ [])
    (named : ∀ member ∈ members, member.Named)
    (spelled : ∀ member ∈ members, Spells member.placed.value member.placed.text) :
    Spells (.object (members.map Member.pair))
      ('\x7b' :: ([','].intercalate (members.map Member.chars) ++ ['\x7d']))

def SpelledBy (value : Json) (content : String) : Prop :=
  ∃ placed : Placed, placed.Spaced ∧ placed.value = value ∧ Spells value placed.text ∧
    content.toList = placed.chars

end Grammar

/-! Code units. -/
section Units

def TextUnit.units : TextUnit → List Nat
  | .char c => codeUnits c
  | .code unit => [unit]

theorem not_half (c : Char) : isHighHalf c.toNat = false ∧ isLowHalf c.toNat = false := by
  have valid : c.toNat < 0xd800 ∨ 0xdfff < c.toNat ∧ c.toNat < 0x110000 := c.valid
  simp only [isHighHalf, isLowHalf, Bool.and_eq_false_iff, decide_eq_false_iff_not]
  omega

theorem code_units_small {c : Char} (small : c.toNat < 0x10000) : codeUnits c = [c.toNat] :=
  if_pos small

theorem code_units_pair {c : Char} (large : ¬c.toNat < 0x10000) :
    ∃ high low, codeUnits c = [high, low] ∧ isHighHalf high = true ∧ isLowHalf low = true ∧
      c = Char.ofNat (0x10000 + (high - 0xd800) * 0x400 + (low - 0xdc00)) := by
  have valid : c.toNat < 0xd800 ∨ 0xdfff < c.toNat ∧ c.toNat < 0x110000 := c.valid
  refine ⟨_, _, if_neg large, ?_, ?_, ?_⟩
  · simp only [isHighHalf, Bool.and_eq_true, decide_eq_true_eq]
    omega
  · simp only [isLowHalf, Bool.and_eq_true, decide_eq_true_eq]
    omega
  · have number : 0x10000 + (0xd800 + (c.toNat - 0x10000) / 0x400 - 0xd800) * 0x400 +
        (0xdc00 + (c.toNat - 0x10000) % 0x400 - 0xdc00) = c.toNat := by omega
    rw [number, Char.ofNat_toNat]

theorem code_units_of_nat {unit : Nat} (small : unit < 0x10000) (high : isHighHalf unit = false)
    (low : isLowHalf unit = false) : codeUnits (Char.ofNat unit) = [unit] := by
  simp only [isHighHalf, isLowHalf, Bool.and_eq_false_iff, decide_eq_false_iff_not] at high low
  have same : (Char.ofNat unit).toNat = unit := by
    rw [Char.toNat_ofNat, if_pos (by simp only [Nat.isValidChar]; omega)]
  rw [code_units_small (by rw [same]; exact small), same]

theorem code_units_of_halves {high low : Nat} (first : isHighHalf high = true)
    (second : isLowHalf low = true) :
    codeUnits (Char.ofNat (0x10000 + (high - 0xd800) * 0x400 + (low - 0xdc00))) = [high, low] := by
  simp only [isHighHalf, isLowHalf, Bool.and_eq_true, decide_eq_true_eq] at first second
  have same := Char.toNat_ofNat (0x10000 + (high - 0xd800) * 0x400 + (low - 0xdc00))
  rw [if_pos (by simp only [Nat.isValidChar]; omega)] at same
  have first_half :
      0xd800 + (0x10000 + (high - 0xd800) * 0x400 + (low - 0xdc00) - 0x10000) / 0x400 = high := by
        omega
  have second_half :
      0xdc00 + (0x10000 + (high - 0xd800) * 0x400 + (low - 0xdc00) - 0x10000) % 0x400 = low := by
        omega
  rw [codeUnits, same, if_neg (by omega), first_half, second_half]

end Units

/-! Texts. -/
section Texts

def takeChar (units : List Nat) : Char × List Nat :=
  let first := units.headD 0
  let second := units.tail.headD 0
  if isHighHalf first then (Char.ofNat (0x10000 + (first - 0xd800) * 0x400 + (second - 0xdc00)),
    units.tail.tail)
  else (Char.ofNat first, units.tail)

-- A code unit alone is never a half of a pair, and a pair begins with its high half: so what the
-- units begin with tells the first character.
@[simp] theorem take_char_append (c : Char) (units : List Nat) :
    takeChar (codeUnits c ++ units) = (c, units) := by
  by_cases small : c.toNat < 0x10000
  · simp [takeChar, code_units_small small, (not_half c).1, Char.ofNat_toNat]
  · obtain ⟨high, low, pair, half, -, made⟩ := code_units_pair small
    simp [takeChar, pair, half, ← made]

theorem code_units_ne_nil (c : Char) : codeUnits c ≠ [] := by
  unfold codeUnits
  split <;> exact List.cons_ne_nil _ _

theorem flat_units_cons_iff (c : Char) (units : List Nat) (content : List Char) :
    codeUnits c ++ units = content.flatMap codeUnits ↔
      ∃ later, content = c :: later ∧ units = later.flatMap codeUnits := by
  constructor
  · intro same
    cases content with
    | nil => exact absurd (List.append_eq_nil_iff.mp same).1 (code_units_ne_nil c)
    | cons d later =>
      have taken := congrArg takeChar same
      rw [List.flatMap_cons, take_char_append, take_char_append] at taken
      obtain ⟨rfl, rest⟩ := Prod.mk.inj taken
      exact ⟨later, rfl, rest⟩
  · rintro ⟨later, rfl, rfl⟩
    rw [List.flatMap_cons]

theorem assemble_code {unit : Nat} (high : isHighHalf unit = false) (low : isLowHalf unit = false)
    (parts : List TextUnit) :
    assemble (.code unit :: parts) = (assemble parts).map (Char.ofNat unit :: ·) := by
  cases parts with
  | nil => simp [assemble, high, low]
  | cons next later =>
    cases next with
    | char c => simp [assemble, high, low]
    | code other => simp [assemble, high, low]

/-- Code units that begin with a half of a pair, but not with a pair, are those of no text. -/
theorem flat_units_ne_of_half {unit : Nat} {units : List Nat}
    (half : isHighHalf unit = true ∨ isLowHalf unit = true)
    (alone : isHighHalf unit = true → ∀ low ∈ units.head?, isLowHalf low = false)
    (content : List Char) :
    unit :: units ≠ content.flatMap codeUnits := by
  intro same
  cases content with
  | nil => cases same
  | cons c later =>
    rw [List.flatMap_cons] at same
    by_cases small : c.toNat < 0x10000
    · rw [code_units_small small] at same
      rw [(List.cons.inj same).1, (not_half c).1, (not_half c).2] at half
      rcases half with wrong | wrong <;> cases wrong
    · obtain ⟨high, low, pair, high_half, low_half, -⟩ := code_units_pair small
      rw [pair] at same
      obtain ⟨first, rest⟩ := List.cons.inj same
      rw [alone (first ▸ high_half) low (by rw [rest]; rfl)] at low_half
      cases low_half

theorem char_units_head (c : Char) (units : List Nat) :
    ∀ low ∈ (codeUnits c ++ units).head?, isLowHalf low = false := by
  intro low first
  by_cases small : c.toNat < 0x10000
  · rw [code_units_small small] at first
    cases first
    exact (not_half c).2
  · obtain ⟨high, _, pair, half, -⟩ := code_units_pair small
    rw [pair] at first
    cases first
    simp only [isHighHalf, isLowHalf, Bool.and_eq_true, Bool.and_eq_false_iff, decide_eq_true_eq,
      decide_eq_false_iff_not] at half ⊢
    omega

/-- Parts are put together to the text that has their code units, and fail if there is none. -/
def Assembles (parts : List TextUnit) : Prop :=
  ∀ content, assemble parts = some content ↔
    parts.flatMap TextUnit.units = content.flatMap codeUnits

theorem assembles_cons {parts rest : List TextUnit} {c : Char}
    (step : assemble parts = (assemble rest).map (c :: ·))
    (units : parts.flatMap TextUnit.units = codeUnits c ++ rest.flatMap TextUnit.units)
    (known : Assembles rest) :
    Assembles parts := by
  intro content
  rw [step, units, flat_units_cons_iff, Option.map_eq_some_iff]
  constructor
  · rintro ⟨later, assembled, rfl⟩
    exact ⟨later, rfl, (known later).mp assembled⟩
  · rintro ⟨later, rfl, same⟩
    exact ⟨later, (known later).mpr same, rfl⟩

theorem assembles_none {unit : Nat} {rest : List TextUnit}
    (half : isHighHalf unit = true ∨ isLowHalf unit = true)
    (alone : isHighHalf unit = true → ∀ low ∈ (rest.flatMap TextUnit.units).head?,
      isLowHalf low = false) (refused : assemble (.code unit :: rest) = none) :
        Assembles (.code unit :: rest) := by
  intro content
  rw [refused, List.flatMap_cons]
  exact iff_of_false (Option.some_ne_none content).symm (flat_units_ne_of_half half alone content)

theorem assembles_half {unit : Nat} {rest : List TextUnit}
    (half : isHighHalf unit = true ∨ isLowHalf unit = true)
    (alone : ∀ low later, rest = .code low :: later → isHighHalf unit = true →
      isLowHalf low = false) :
    Assembles (.code unit :: rest) := by
  cases rest with
  | nil =>
    refine assembles_none half (fun _ low none_left => by cases none_left) ?_
    rcases half with high | low <;> simp [assemble, *]
  | cons next later =>
    cases next with
    | char c =>
      refine assembles_none half (fun _ => char_units_head c _) ?_
      rcases half with high | low <;> simp [assemble, *]
    | code low =>
      refine assembles_none half (fun high other first => ?_) ?_
      · cases first
        exact alone low later rfl high
      · have refused := alone low later rfl
        by_cases high : isHighHalf unit = true
        · simp [assemble, high, refused high]
        · simp [assemble, high, half.resolve_left high]

-- A pair takes two parts at once, so the induction is over the number of parts.
theorem assembles (parts : List TextUnit) (small : ∀ unit, .code unit ∈ parts → unit < 0x10000) :
    Assembles parts := by
  induction n : parts.length using Nat.strongRecOn generalizing parts with
  | ind n ih =>
    subst n
    cases parts with
    | nil =>
      intro content
      cases content <;> simp [assemble, code_units_ne_nil]
    | cons part rest =>
      have later := ih rest.length (Nat.lt_succ_self _) rest
        (fun unit member => small unit (List.mem_cons_of_mem _ member)) rfl
      cases part with
      | char c => exact assembles_cons (by rw [assemble]) rfl later
      | code unit =>
        by_cases half : isHighHalf unit = true ∨ isLowHalf unit = true
        · by_cases pair : ∃ low after, rest = .code low :: after ∧ isHighHalf unit = true ∧
            isLowHalf low = true
          · obtain ⟨low, after, rfl, first, second⟩ := pair
            refine assembles_cons (by rw [assemble, if_pos first, if_pos second]) ?_
              (ih after.length (by simp only [List.length_cons]; omega) after
                (fun unit member =>
                  small unit (List.mem_cons_of_mem _ (List.mem_cons_of_mem _ member))) rfl)
            rw [code_units_of_halves first second]
            rfl
          · refine assembles_half half fun low after same first => ?_
            exact Bool.eq_false_iff.mpr fun second => pair ⟨low, after, same, first, second⟩
        · rw [not_or, Bool.not_eq_true, Bool.not_eq_true] at half
          refine assembles_cons (assemble_code half.1 half.2 rest) ?_ later
          rw [code_units_of_nat (small unit List.mem_cons_self) half.1 half.2]
          rfl

theorem HexDigit.value_eq {digit : Char} {value : Nat} (shape : HexDigit digit value) :
    hexValue? digit = some value := by
  obtain ⟨small, rfl | rfl⟩ := shape
  · revert value
    decide
  · revert value
    decide

theorem short_escape_stands {letter c : Char} (listed : (letter, c) ∈ shortEscapes) :
    escaped? letter = some c := by
  have table : ∀ pair ∈ shortEscapes, escaped? pair.1 = some pair.2 := by
    simp [shortEscapes, escaped?]
  exact table (letter, c) listed

theorem code_unit_spelled {a b c d : Char} {w x y z : Nat} (first : HexDigit a w)
    (second : HexDigit b x) (third : HexDigit c y) (fourth : HexDigit d z) :
    codeUnit? a b c d = some (((w * 16 + x) * 16 + y) * 16 + z) := by
  simp only [codeUnit?, first.value_eq, second.value_eq, third.value_eq, fourth.value_eq, bind,
    Option.bind]

theorem read_units_short {e c : Char} (stands : escaped? e = some c) (rest : List Char) :
    readUnits ('\\' :: e :: rest) = (readUnits rest).map fun read =>
      (.char c :: read.1, read.2) := by
  have other : e ≠ 'u' := by
    rintro rfl
    cases stands
  rw [readUnits, stands]
  · cases readUnits rest <;> rfl
  · intro _ _ _ _ _ same
    exact absurd same other

theorem read_units_plain {c : Char} (quotes : c ≠ '"') (slash : c ≠ '\\') (visible : ¬c < ' ')
    (rest : List Char) :
    readUnits (c :: rest) = (readUnits rest).map fun read => (.char c :: read.1, read.2) := by
  rw [readUnits, if_neg (not_or.mpr ⟨visible, slash⟩)]
  · cases readUnits rest <;> rfl
  · exact quotes
  · intro _ _ _ _ _ same
    exact absurd same slash
  · intro _ _ same
    exact absurd same slash

theorem read_units_spelled {units : List Nat} {body : List Char} (spelled : SpellsUnits units body)
    (rest : List Char) :
    ∃ parts, readUnits (body ++ '"' :: rest) = some (parts, rest) ∧
    parts.flatMap TextUnit.units = units ∧
      ∀ unit, .code unit ∈ parts → unit < 0x10000 := by
  induction spelled with
  | done =>
    exact ⟨[], by rw [List.nil_append, readUnits], rfl,
      fun unit member => absurd member List.not_mem_nil⟩
  | @plain c units body visible quotes slash _ ih =>
    obtain ⟨parts, read, same, small⟩ := ih
    refine ⟨.char c :: parts, ?_, by rw [← same]; rfl, by simpa using small⟩
    rw [List.cons_append, read_units_plain quotes slash (Char.not_lt.mpr visible), read]
    rfl
  | @short letter c units body listed _ ih =>
    obtain ⟨parts, read, same, small⟩ := ih
    refine ⟨.char c :: parts, ?_, by rw [← same]; rfl, by simpa using small⟩
    rw [List.cons_append, List.cons_append, read_units_short (short_escape_stands listed), read]
    rfl
  | @code a b c d w x y z units body first second third fourth _ ih =>
    obtain ⟨parts, read, same, small⟩ := ih
    refine ⟨.code (((w * 16 + x) * 16 + y) * 16 + z) :: parts, ?_, by rw [← same]; rfl, ?_⟩
    · simp only [List.cons_append]
      rw [readUnits, code_unit_spelled first second third fourth, read]
      rfl
    · intro unit member
      rcases List.mem_cons.mp member with here | later
      · cases here
        have bounds := And.intro first.1 (And.intro second.1 (And.intro third.1 fourth.1))
        omega
      · exact small unit later

theorem read_text_spelled {content : Option String} {body : List Char}
    (spelled : SpellsText content body) (rest : List Char) :
    readText (body ++ '"' :: rest) = some (content, rest) := by
  cases spelled with
  | defined content units =>
    obtain ⟨parts, read, same, small⟩ := read_units_spelled units rest
    have assembled := (assembles parts small content.toList).mpr same
    simp only [readText, read, bind, Option.bind, assembled, Option.map_some, String.ofList_toList]
  | undefined units broken =>
    obtain ⟨parts, read, same, small⟩ := read_units_spelled units rest
    have refused : assemble parts = none := by
      refine Option.eq_none_iff_forall_ne_some.mpr fun content assembled => ?_
      exact broken content (same ▸ (assembles parts small content).mp assembled)
    simp only [readText, read, bind, Option.bind, refused, Option.map_none]

end Texts

end HandlerIndex.Json
