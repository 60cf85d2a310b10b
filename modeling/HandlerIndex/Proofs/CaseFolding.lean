import HandlerIndex.Text.Lowercase
import HandlerIndex.Text.Occurrence
import Mathlib

/-!
The two ways in which the event search disregards case. One folds the letters A to Z and nothing
else; the other lowers all of Unicode, and there a capital sigma takes its form from the letters
around it. A text that is found in another after folding is found after lowering as well, unless one
of its own sigmas can take another form there: the text then begins or ends too early to settle it.
Left out are the case rules of single languages.
-/
namespace HandlerIndex.Text

/-! Where a text occurs in another. -/
section Occurrence

theorem occurrence_from_is_some (sought text : List Char) (place : Nat) :
    (occurrenceFrom sought place text).isSome = true ↔ sought <:+: text := by
  induction text generalizing place with
  | nil => cases sought <;> simp [occurrenceFrom]
  | cons c rest ih =>
    rw [occurrenceFrom, List.infix_cons_iff, ← List.isPrefixOf_iff_prefix]
    by_cases here : sought.isPrefixOf (c :: rest) = true
    · simp [here]
    · simp [here, ih]

theorem occurs_in_iff (sought text : List Char) : occursIn sought text = true ↔ sought <:+: text :=
  occurrence_from_is_some sought text 0

@[simp] theorem byte_length_append (first second : List Char) :
    byteLength (first ++ second) = byteLength first + byteLength second := by
  induction first with
  | nil => exact (Nat.zero_add _).symm
  | cons c rest ih => exact (congrArg (c.utf8Size + ·) ih).trans (Nat.add_assoc _ _ _).symm

theorem byte_length_pos {text : List Char} (filled : text ≠ []) : 0 < byteLength text := by
  obtain ⟨c, rest, rfl⟩ := List.exists_cons_of_ne_nil filled
  exact Nat.lt_of_lt_of_le (Char.utf8Size_pos c) (Nat.le_add_right _ _)

theorem occurrence_from_bound {sought text : List Char} {place found : Nat}
    (occurs : occurrenceFrom sought place text = some found) :
    found + byteLength sought ≤ place + byteLength text := by
  induction text generalizing place with
  | nil =>
    rw [occurrenceFrom] at occurs
    cases sought with
    | nil => exact Nat.le_of_eq (congrArg (· + 0) (Option.some.inj occurs).symm)
    | cons c rest => cases occurs
  | cons c rest ih =>
    rw [occurrenceFrom] at occurs
    by_cases here : sought.isPrefixOf (c :: rest) = true
    · obtain ⟨behind, joined⟩ := List.isPrefixOf_iff_prefix.mp here
      rw [if_pos here] at occurs
      rw [← joined, byte_length_append, ← Option.some.inj occurs]
      omega
    · rw [if_neg here] at occurs
      have later := ih occurs
      have whole : byteLength (c :: rest) = c.utf8Size + byteLength rest := rfl
      omega

end Occurrence

/-! Lowering a part of a text, told by what stands around it. -/
section Lowering

def lowerAt (before after : List Char) (c : Char) : List Char :=
  if c = 'Σ' then [lowerSigma before after] else lowerChar c

/-- What a part of a text becomes in lower case, between the characters before it (the last one
first) and those after it. -/
def lowerIn (before after : List Char) : List Char → List Char
  | [] => []
  | c :: rest => lowerAt before (rest ++ after) c ++ lowerIn (c :: before) after rest

theorem lower_from_eq (before written cs : List Char) :
    lowerFrom before written cs = written.reverse ++ lowerIn before [] cs := by
  induction cs generalizing before written with
  | nil => rw [lowerFrom, lowerIn, List.append_nil]
  | cons c rest ih =>
    rw [lowerFrom, ih, lowerIn, List.reverse_append, List.reverse_reverse, List.append_nil,
      List.append_assoc, lowerAt]

theorem lowercase_eq_lower_in (cs : List Char) : lowercaseChars cs = lowerIn [] [] cs :=
  lower_from_eq [] [] cs

theorem lower_in_append (before after first second : List Char) :
    lowerIn before after (first ++ second) =
      lowerIn before (second ++ after) first ++ lowerIn (first.reverse ++ before) after second := by
  induction first generalizing before with
  | nil => rfl
  | cons c rest ih =>
    rw [List.cons_append, lowerIn, lowerIn, ih, List.reverse_cons, List.append_assoc,
      List.append_assoc, List.append_assoc, List.singleton_append]

theorem lower_at_length (before after before' after' : List Char) (c : Char) :
    (lowerAt before after c).length = (lowerAt before' after' c).length := by
  rw [lowerAt, lowerAt]
  split <;> rfl

theorem lower_in_length (before after before' after' cs : List Char) :
    (lowerIn before after cs).length = (lowerIn before' after' cs).length := by
  induction cs generalizing before before' with
  | nil => rfl
  | cons c rest ih =>
    rw [lowerIn, lowerIn, List.length_append, List.length_append, ih (c :: before) (c :: before'),
      lower_at_length before _ before' (rest ++ after')]

/-- Only a capital sigma tells where a text stands. -/
theorem lower_in_eq_iff (before after before' after' cs : List Char) :
    lowerIn before after cs = lowerIn before' after' cs ↔
      ∀ left right, cs = left ++ 'Σ' :: right →
        lowerSigma (left.reverse ++ before) (right ++ after) =
          lowerSigma (left.reverse ++ before') (right ++ after') := by
  induction cs generalizing before before' with
  | nil => simp [lowerIn]
  | cons c rest ih =>
    have pieces : lowerIn before after (c :: rest) = lowerIn before' after' (c :: rest) ↔
        lowerAt before (rest ++ after) c = lowerAt before' (rest ++ after') c ∧
          lowerIn (c :: before) after rest = lowerIn (c :: before') after' rest := by
      refine ⟨fun same => List.append_inj same (lower_at_length _ _ _ _ c), ?_⟩
      rintro ⟨here, later⟩
      rw [lowerIn, lowerIn, here, later]
    rw [pieces, ih]
    constructor
    · rintro ⟨here, later⟩ left right split
      cases left with
      | nil =>
        obtain ⟨rfl, rfl⟩ := List.cons.inj split
        exact List.head_eq_of_cons_eq here
      | cons first left =>
        obtain ⟨rfl, below⟩ := List.cons.inj split
        simpa using later left right below
    · intro same
      refine ⟨?_, ?_⟩
      · by_cases sigma : c = 'Σ'
        · rw [lowerAt, lowerAt, if_pos sigma, if_pos sigma]
          exact congrArg (fun form => [form]) (same [] rest (by rw [sigma]; rfl))
        · rw [lowerAt, lowerAt, if_neg sigma, if_neg sigma]
      · intro left right below
        simpa using same (c :: left) right (by rw [below]; rfl)

end Lowering

/-! Folding loses nothing that lowering sees. -/
section Folding

theorem to_lower_cases (c : Char) :
    c.toLower = c ∨ 65 ≤ c.toNat ∧ c.toNat ≤ 90 ∧ c.toLower.toNat = c.toNat + 32 := by
  by_cases capital : c.val ≥ 'A'.val ∧ c.val ≤ 'Z'.val
  · have low : 65 ≤ c.toNat := UInt32.le_iff_toNat_le.mp capital.1
    have high : c.toNat ≤ 90 := UInt32.le_iff_toNat_le.mp capital.2
    have lowered : c.toLower.val = c.val + 32 := congrArg Char.val (dif_pos capital)
    have sum : c.toLower.toNat = (c.toNat + 32) % 4294967296 :=
      (congrArg UInt32.toNat lowered).trans (UInt32.toNat_add c.val 32)
    exact .inr ⟨low, high, by omega⟩
  · exact .inl (dif_neg capital)

theorem ignorable_apart : ∀ range ∈ ignorableRanges,
    (range.2 < 65 ∨ 90 < range.1) ∧ (range.2 < 97 ∨ 122 < range.1) := by
  decide +kernel

def Counts (c : Char) : Prop := inRanges casedRanges c = true ∧ inRanges ignorableRanges c = false

theorem latin_counts {c : Char}
    (latin : 65 ≤ c.toNat ∧ c.toNat ≤ 90 ∨ 97 ≤ c.toNat ∧ c.toNat ≤ 122) :
    Counts c := by
  constructor
  · refine List.any_eq_true.mpr ?_
    rcases latin with capital | small
    · exact ⟨(0x41, 0x5A), List.mem_cons_self, by simpa using capital⟩
    · exact ⟨(0x61, 0x7A), List.mem_cons_of_mem _ List.mem_cons_self, by simpa using small⟩
  · refine List.any_eq_false.mpr ?_
    intro range member inside
    obtain ⟨capitals, smalls⟩ := ignorable_apart range member
    simp only [Bool.and_eq_true, decide_eq_true_eq] at inside
    omega

theorem to_lower_kinds (c : Char) :
    inRanges casedRanges c.toLower = inRanges casedRanges c ∧
      inRanges ignorableRanges c.toLower = inRanges ignorableRanges c := by
  rcases to_lower_cases c with same | ⟨low, high, lowered⟩
  · rw [same]
    exact ⟨rfl, rfl⟩
  · obtain ⟨cased, kept⟩ := latin_counts (.inl ⟨low, high⟩)
    obtain ⟨cased', kept'⟩ := latin_counts (c := c.toLower) (.inr (by omega))
    exact ⟨cased'.trans cased.symm, kept'.trans kept.symm⟩

theorem to_lower_sigma_iff (c : Char) : c.toLower = 'Σ' ↔ c = 'Σ' := by
  rcases to_lower_cases c with same | ⟨low, high, lowered⟩
  · rw [same]
  · have sigma : 'Σ'.toNat = 931 := rfl
    constructor
    · intro same
      rw [same] at lowered
      omega
    · rintro rfl
      omega

@[simp] theorem lower_char_to_lower (c : Char) : lowerChar c.toLower = lowerChar c := by
  rcases to_lower_cases c with same | ⟨low, high, lowered⟩
  · rw [same]
  · rw [lowerChar, lowerChar, if_pos (by omega), if_pos (by omega),
      Char.toLower_toLower_eq_toLower]

theorem meets_letter_cons (c : Char) (rest : List Char) : meetsLetter (c :: rest) =
    if inRanges ignorableRanges c = true then meetsLetter rest else inRanges casedRanges c := by
  rw [meetsLetter, List.dropWhile_cons]
  by_cases ignored : inRanges ignorableRanges c = true
  · rw [if_pos ignored, if_pos ignored, meetsLetter]
  · rw [if_neg ignored, if_neg ignored]

@[simp] theorem meets_letter_fold (cs : List Char) :
    meetsLetter (foldAsciiChars cs) = meetsLetter cs := by
  induction cs with
  | nil => rfl
  | cons c rest ih =>
    obtain ⟨cased, ignored⟩ := to_lower_kinds c
    rw [foldAsciiChars, List.map_cons, meets_letter_cons, meets_letter_cons, cased, ignored, ← ih,
      foldAsciiChars]

theorem lower_in_fold (before after cs : List Char) :
    lowerIn (foldAsciiChars before) (foldAsciiChars after) (foldAsciiChars cs) =
      lowerIn before after cs := by
  induction cs generalizing before with
  | nil => rfl
  | cons c rest ih =>
    have here :
        lowerAt (foldAsciiChars before) (foldAsciiChars rest ++ foldAsciiChars after) c.toLower =
        lowerAt before (rest ++ after) c := by
      have joined : foldAsciiChars rest ++ foldAsciiChars after = foldAsciiChars (rest ++ after) :=
        List.map_append.symm
      simp only [lowerAt, to_lower_sigma_iff, lower_char_to_lower, lowerSigma, joined,
        meets_letter_fold]
    have later : lowerIn (c.toLower :: foldAsciiChars before) (foldAsciiChars after)
        (foldAsciiChars rest) =
        lowerIn (c :: before) after rest := ih (c :: before)
    have parts : foldAsciiChars (c :: rest) = c.toLower :: foldAsciiChars rest := rfl
    rw [parts, lowerIn, lowerIn, here, later]

/-- Texts that fold alike are lowered alike, wherever they stand. -/
theorem lower_in_congr {cs cs' : List Char} (same : foldAsciiChars cs = foldAsciiChars cs')
    (before after : List Char) : lowerIn before after cs = lowerIn before after cs' := by
  rw [← lower_in_fold before after cs, same, lower_in_fold]

/-- Where a folded text occurs, the text occurs lowered as befits the place. -/
theorem lowered_at_folded {text whole : List Char}
    (found : foldAsciiChars text <:+: foldAsciiChars whole) :
    ∃ before after, lowerIn before after text <:+: lowercaseChars whole := by
  obtain ⟨left, right, joined⟩ := found
  obtain ⟨start, stop, rfl, folded, -⟩ := List.map_eq_append_iff.mp joined.symm
  obtain ⟨first, middle, rfl, -, same⟩ := List.map_eq_append_iff.mp folded
  refine ⟨first.reverse, stop, ?_⟩
  rw [lowercase_eq_lower_in, lower_in_append, lower_in_append, List.append_nil, List.append_nil,
    lower_in_congr same]
  exact List.infix_append _ _ _

end Folding

/-! Sigmas whose form the text settles by itself. -/
section Settling

/-- Whether a sigma with these neighbours (those before it with the last one first) may take another
form once there is more around them: no letter on either side has the say yet, or the letters stop
at the sigma. -/
def sigmaOpen (before after : List Char) : Bool :=
  before.all (inRanges ignorableRanges) && !meetsLetter after ||
    meetsLetter before && after.all (inRanges ignorableRanges)

/-- Every capital sigma of the text has its form whatever the text stands in. -/
def Settled (text : List Char) : Prop :=
  ∀ place < text.length, text[place]? = some 'Σ' →
    sigmaOpen (text.take place).reverse (text.drop (place + 1)) = false

instance (text : List Char) : Decidable (Settled text) :=
  inferInstanceAs (Decidable (∀ place < text.length, _))

theorem settled_iff (text : List Char) : Settled text ↔
    ∀ left right, text = left ++ 'Σ' :: right → sigmaOpen left.reverse right = false := by
  constructor
  · rintro settled left right rfl
    simpa using settled left.length (by simp) (by simp)
  · intro closed place inside sigma
    refine closed _ _ ?_
    rw [← (List.getElem_eq_iff inside).mpr sigma, List.getElem_cons_drop, List.take_append_drop]

theorem meets_letter_append (near far : List Char) : meetsLetter (near ++ far) =
    if near.all (inRanges ignorableRanges) = true then meetsLetter far else meetsLetter near := by
  induction near with
  | nil => rfl
  | cons c rest ih =>
    rw [List.cons_append, meets_letter_cons, meets_letter_cons, ih, List.all_cons]
    by_cases ignored : inRanges ignorableRanges c = true
    · simp [ignored]
    · simp [ignored]

theorem no_letter_of_ignorable {cs : List Char}
    (ignored : cs.all (inRanges ignorableRanges) = true) :
    meetsLetter cs = false := by
  have alone := meets_letter_append cs []
  rwa [if_pos ignored, List.append_nil] at alone

theorem lower_sigma_settled {before after : List Char} (closed : sigmaOpen before after = false)
    (further beyond : List Char) :
    lowerSigma (before ++ further) (after ++ beyond) = lowerSigma before after := by
  rw [lowerSigma, lowerSigma, meets_letter_append, meets_letter_append]
  obtain ⟨left, right⟩ := Bool.or_eq_false_iff.mp closed
  by_cases ignored : before.all (inRanges ignorableRanges) = true
  · have letter : meetsLetter after = true := by simpa [ignored] using left
    have enough : ¬ after.all (inRanges ignorableRanges) = true := by
      intro nothing
      rw [no_letter_of_ignorable nothing] at letter
      exact Bool.noConfusion letter
    simp [enough, letter]
  · rw [if_neg ignored]
    cases letter : meetsLetter before with
    | false => rfl
    | true =>
      have enough : after.all (inRanges ignorableRanges) = false := by simpa [letter] using right
      rw [enough]
      rfl

/-- A settled text is lowered alike wherever it stands. -/
theorem lower_in_settled {text : List Char} (settled : Settled text) (before after : List Char) :
    lowerIn before after text = lowercaseChars text := by
  rw [lowercase_eq_lower_in, lower_in_eq_iff]
  intro left right split
  have closed := (settled_iff text).mp settled left right split
  rw [lower_sigma_settled closed, List.append_nil, List.append_nil]

theorem settled_found {text whole : List Char} (settled : Settled text)
    (found : foldAsciiChars text <:+: foldAsciiChars whole) :
    lowercaseChars text <:+: lowercaseChars whole := by
  obtain ⟨before, after, lowered⟩ := lowered_at_folded found
  rwa [lower_in_settled settled] at lowered

theorem sigma_turns_final {before after further : List Char}
    (ignored : before.all (inRanges ignorableRanges) = true) (silent : meetsLetter after = false)
    (letter : meetsLetter further = true) :
    lowerSigma (before ++ further) after = 'ς' ∧ lowerSigma before after = 'σ' := by
  rw [lowerSigma, lowerSigma, meets_letter_append, if_pos ignored, letter, silent,
    no_letter_of_ignorable ignored]
  exact ⟨rfl, rfl⟩

theorem sigma_turns_inner {before after beyond : List Char} (joined : meetsLetter before = true)
    (ignored : after.all (inRanges ignorableRanges) = true) (letter : meetsLetter beyond = true) :
    lowerSigma before (after ++ beyond) = 'σ' ∧ lowerSigma before after = 'ς' := by
  rw [lowerSigma, lowerSigma, meets_letter_append, if_pos ignored, letter, joined,
    no_letter_of_ignorable ignored]
  exact ⟨rfl, rfl⟩

/-- One more letter on one of the sides changes a text that is not settled, whichever letter it
is. -/
theorem lower_in_unsettled {text : List Char} (unsettled : ¬ Settled text) :
    (∀ c, Counts c → lowerIn [c] [] text ≠ lowercaseChars text) ∨
      ∀ c, Counts c → lowerIn [] [c] text ≠ lowercaseChars text := by
  obtain ⟨left, right, split, turns⟩ : ∃ left right, text = left ++ 'Σ' :: right ∧
      sigmaOpen left.reverse right = true := by
    simpa [settled_iff] using unsettled
  have alone : ∀ c, Counts c → meetsLetter [c] = true := by
    intro c letter
    rw [meets_letter_cons, if_neg (by simp [letter.2]), letter.1]
  simp only [lowercase_eq_lower_in, Ne, lower_in_eq_iff]
  rcases (Bool.or_eq_true _ _).mp turns with before | after
  · obtain ⟨ignored, silent⟩ := (Bool.and_eq_true _ _).mp before
    refine .inl fun c letter same => ?_
    obtain ⟨final, inner⟩ := sigma_turns_final ignored (by simpa using silent) (alone c letter)
    have forms := same left right split
    rw [List.append_nil, List.append_nil, final, inner] at forms
    exact absurd forms (by decide)
  · obtain ⟨joined, ignored⟩ := (Bool.and_eq_true _ _).mp after
    refine .inr fun c letter same => ?_
    obtain ⟨inner, final⟩ := sigma_turns_inner joined ignored (alone c letter)
    have forms := same left right split
    rw [List.append_nil, List.append_nil, inner, final] at forms
    exact absurd forms (by decide)

theorem spare_letter (taken : Option Char) :
    ∃ c, Counts c ∧ (∀ before after, lowerAt before after c = [c]) ∧ taken ≠ some c := by
  by_cases first : taken = some 'x'
  · refine ⟨'y', latin_counts (.inr (by decide)), fun _ _ => rfl, ?_⟩
    rw [first]
    decide
  · exact ⟨'x', latin_counts (.inr (by decide)), fun _ _ => rfl, first⟩

-- The name is longer than the text by one letter, so there are two places to look at: where the
-- text stands, its sigma has another form, and at the other one the additional letter does not fit.
/-- A text that is not settled is missed in some name that contains it. -/
theorem unsettled_missed {text : List Char} (unsettled : ¬ Settled text) :
    ∃ whole, foldAsciiChars text <:+: foldAsciiChars whole ∧ ¬ lowercaseChars text <:+:
      lowercaseChars whole := by
  have same : ∀ before after, lowercaseChars text <:+: lowerIn before after text →
      lowerIn before after text = lowercaseChars text := by
    intro before after inside
    refine (inside.eq_of_length ?_).symm
    rw [lowercase_eq_lower_in]
    exact lower_in_length _ _ _ _ _
  rcases lower_in_unsettled unsettled with changed | changed
  · obtain ⟨c, letter, kept, free⟩ := spare_letter (lowercaseChars text).head?
    have whole : lowercaseChars (c :: text) = c :: lowerIn [c] [] text := by
      rw [lowercase_eq_lower_in, lowerIn, kept, List.singleton_append]
    refine ⟨c :: text, (List.suffix_cons c text).isInfix.map _, ?_⟩
    rw [whole, List.infix_cons_iff, List.prefix_cons_iff]
    rintro ((empty | ⟨rest, lowered, -⟩) | inside)
    · exact changed c letter (same _ _ (empty ▸ List.nil_infix))
    · exact free (by rw [lowered, List.head?_cons])
    · exact changed c letter (same _ _ inside)
  · obtain ⟨c, letter, kept, free⟩ := spare_letter (lowercaseChars text).getLast?
    have whole : lowercaseChars (text ++ [c]) = lowerIn [] [c] text ++ [c] := by
      rw [lowercase_eq_lower_in, lower_in_append, lowerIn, kept, lowerIn]
      rfl
    refine ⟨text ++ [c], (List.prefix_append text [c]).isInfix.map _, ?_⟩
    rw [whole, List.infix_concat_iff, List.suffix_concat_iff]
    rintro ((empty | ⟨rest, lowered, -⟩) | inside)
    · exact changed c letter (same _ _ (empty ▸ List.nil_infix))
    · exact free (by rw [lowered, List.getLast?_concat])
    · exact changed c letter (same _ _ inside)

end Settling
end HandlerIndex.Text
