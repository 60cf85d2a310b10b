import HandlerIndex.Proofs.BlobRoundTrip
import HandlerIndex.Store.Queries
import Mathlib.Data.List.Forall2

/-!
A blob of the event store says itself where it ends. Every reader takes exactly the bytes that were
written for a value, so a blob that is cut anywhere, inside a length, a text or between two
subscriptions, is refused for the bytes it lacks, and no blob begins with another one. Left out are
blobs that were changed in some other way than by cutting.
-/
namespace HandlerIndex.Blob
open Text (Bytes)

/-! The form of a blob, told by its parts. -/
section Form

/-- How a length is written: as one byte, or behind a marker as two, four or eight, the lowest
first. -/
inductive WrittenLength (n : Nat) : Bytes → Prop where
  | one (byte : UInt8) (small : n ≤ 250) (value : byte.toNat = n) : WrittenLength n [byte]
  | two (low : Bytes) (width : low.length = 2) (large : 250 < n) (small : n < UInt16.size)
    (value : ofLowBytes low = n) : WrittenLength n (251 :: low)
  | four (low : Bytes) (width : low.length = 4) (large : UInt16.size ≤ n) (small : n < UInt32.size)
    (value : ofLowBytes low = n) : WrittenLength n (252 :: low)
  | eight (low : Bytes) (width : low.length = 8) (large : UInt32.size ≤ n)
    (value : ofLowBytes low = n) : WrittenLength n (253 :: low)

def WrittenText (text : String) (code : Bytes) : Prop :=
  ∃ length, WrittenLength (Text.toBytes text).length length ∧ code = length ++ Text.toBytes text

def WrittenSubscription (s : Subscription) (code : Bytes) : Prop :=
  ∃ key event service signature, WrittenText s.rawKey key ∧ WrittenText s.targetEvent event ∧
    WrittenText s.serviceName service ∧ WrittenText s.signature signature ∧
    code = key ++ event ++ service ++ signature

def Written (subscriptions : List Subscription) (code : Bytes) : Prop :=
  ∃ length members, WrittenLength subscriptions.length length ∧
    List.Forall₂ WrittenSubscription subscriptions members ∧ code = length ++ members.flatten

@[simp] theorem low_bytes_of (low : Bytes) : lowBytes low.length (ofLowBytes low) = low := by
  induction low with
  | nil => rfl
  | cons byte rest ih =>
    have first : (ofLowBytes (byte :: rest)).toUInt8 = byte := by
      apply UInt8.toNat_inj.mp
      have bound := byte.toNat_lt
      simp only [ofLowBytes, Nat.toUInt8_eq, UInt8.toNat_ofNat']
      omega
    have later : ofLowBytes (byte :: rest) / 256 = ofLowBytes rest := by
      have bound := byte.toNat_lt
      simp only [ofLowBytes]
      omega
    rw [List.length_cons, lowBytes, first, later, ih]

theorem written_length_iff (n : Nat) (small : n < UInt64.size) (code : Bytes) :
    WrittenLength n code ↔ code = encodeLength n := by
  have ascending : 250 < UInt16.size ∧ UInt16.size ≤ UInt32.size := by decide
  constructor
  · intro written
    unfold encodeLength
    cases written with
    | one byte short value =>
      subst value
      rw [if_pos short, Nat.toUInt8_eq, UInt8.ofNat_toNat]
    | two low width large below value =>
      subst value
      rw [if_neg (by omega), if_pos (by omega), ← width, low_bytes_of]
    | four low width large below value =>
      subst value
      rw [if_neg (by omega), if_neg (by omega), if_pos (by omega), ← width, low_bytes_of]
    | eight low width large value =>
      subst value
      rw [if_neg (by omega), if_neg (by omega), if_neg (by omega), ← width, low_bytes_of]
  · rintro rfl
    unfold encodeLength
    by_cases short : n ≤ 250
    · rw [if_pos short]
      refine .one _ short ?_
      rw [Nat.toUInt8_eq, UInt8.toNat_ofNat_of_lt' (Nat.lt_of_le_of_lt short (by decide))]
    · rw [if_neg short]
      split
      · exact .two _ (low_bytes_length 2 n) (by omega) (by omega) (of_low_bytes 2 n (by assumption))
      · split
        · exact .four _ (low_bytes_length 4 n) (by omega) (by omega)
            (of_low_bytes 4 n (by assumption))
        · exact .eight _ (low_bytes_length 8 n) (by omega) (of_low_bytes 8 n small)

theorem written_text_iff (text : String) (fits : TextFits text) (code : Bytes) :
    WrittenText text code ↔ code = encodeText text := by
  simp only [WrittenText, written_length_iff _ fits, exists_eq_left, encodeText]

theorem written_subscription_iff (s : Subscription) (fits : s.Fits) (code : Bytes) :
    WrittenSubscription s code ↔ code = encodeSubscription s := by
  simp only [WrittenSubscription, written_text_iff _ fits.rawKey,
    written_text_iff _ fits.targetEvent, written_text_iff _ fits.serviceName,
    written_text_iff _ fits.signature, encodeSubscription]
  constructor
  · rintro ⟨_, _, _, _, rfl, rfl, rfl, rfl, made⟩
    exact made
  · intro made
    exact ⟨_, _, _, _, rfl, rfl, rfl, rfl, made⟩

theorem written_members_iff (subscriptions : List Subscription) (fits : ∀ s ∈ subscriptions, s.Fits)
    (members : List Bytes) :
    List.Forall₂ WrittenSubscription subscriptions members ↔
      members = subscriptions.map encodeSubscription := by
  induction subscriptions generalizing members with
  | nil => simp
  | cons s others ih =>
    have tail := ih fun other member => fits other (List.mem_cons_of_mem s member)
    cases members with
    | nil => simp
    | cons code rest =>
      simp [tail, written_subscription_iff s (fits s List.mem_cons_self)]

theorem written_iff (subscriptions : List Subscription) (few : subscriptions.length < UInt64.size)
    (fits : ∀ s ∈ subscriptions, s.Fits) (code : Bytes) :
    Written subscriptions code ↔ code = encode subscriptions := by
  simp only [Written, written_length_iff _ few, written_members_iff subscriptions fits]
  constructor
  · rintro ⟨_, _, rfl, rfl, made⟩
    exact made
  · intro made
    exact ⟨_, _, rfl, rfl, made⟩

end Form

/-! Readers that notice where their bytes end. -/
section Cut
variable {α β : Type}

/-- A reader refuses whatever is cut off from the end of a code, because it lacks bytes. It wants no
more of them than the whole code has. -/
def Notices (read : Bytes → Except Fault β) (code : Bytes) : Prop :=
  ∀ piece, piece <+: code → piece ≠ code →
    ∃ wanted missing, wanted ≤ code.length ∧ 0 < missing ∧
      read piece = .error (.endsEarly wanted missing)

theorem notices_nil (read : Bytes → Except Fault β) : Notices read [] := by
  intro piece begins cut
  exact absurd (List.prefix_nil.mp begins) cut

theorem notices_then {read : Bytes → Except Fault (α × Bytes)} (next : α × Bytes → Except Fault β)
    {code : Bytes} (here : Notices read code) :
    Notices (fun bytes => read bytes >>= next) code := by
  intro piece begins cut
  obtain ⟨wanted, missing, bounded, some_missing, refused⟩ := here piece begins cut
  exact ⟨wanted, missing, bounded, some_missing, by simp only [refused, bind, Except.bind]⟩

-- A cut is either inside the first code, or the first code is whole and the cut is inside the
-- second one.
theorem notices_bind {read : Bytes → Except Fault (α × Bytes)} {next : α × Bytes → Except Fault β}
    {first second : Bytes} {value : α} (whole : ∀ rest, read (first ++ rest) = .ok (value, rest))
    (here : Notices read first) (later : Notices (fun rest => next (value, rest)) second) :
    Notices (fun bytes => read bytes >>= next) (first ++ second) := by
  intro piece begins cut
  by_cases inside : piece <+: first ∧ piece ≠ first
  · obtain ⟨wanted, missing, bounded, rest⟩ := notices_then next here piece inside.1 inside.2
    exact ⟨wanted, missing, Nat.le_trans bounded (List.prefix_append first second).length_le, rest⟩
  · obtain ⟨rest, rfl⟩ : first <+: piece := by
      rcases List.prefix_or_prefix_of_prefix begins (List.prefix_append first second)
        with short | long
      · have equal : piece = first := not_not.mp fun other => inside ⟨short, other⟩
        exact equal ▸ List.prefix_rfl
      · exact long
    have begins_later : rest <+: second := (List.prefix_append_right_inj first).mp begins
    have cut_later : rest ≠ second := fun equal => cut (by rw [equal])
    obtain ⟨wanted, missing, bounded, some_missing, refused⟩ := later rest begins_later cut_later
    refine ⟨wanted, missing, Nat.le_trans bounded (List.suffix_append first second).length_le,
      some_missing, ?_⟩
    simp only [whole, bind, Except.bind, refused]

theorem read_bytes_notices (code : Bytes) : Notices (readBytes code.length) code := by
  intro piece begins cut
  have shorter : piece.length < code.length :=
    Nat.lt_of_le_of_ne begins.length_le fun same => cut (begins.eq_of_length same)
  have all : piece.take code.length = piece := List.take_of_length_le (Nat.le_of_lt shorter)
  refine ⟨code.length, code.length - piece.length, Nat.le_refl _, Nat.sub_pos_of_lt shorter, ?_⟩
  simp only [readBytes, all, if_pos shorter]

theorem read_number_notices (width n : Nat) : Notices (readNumber width) (lowBytes width n) := by
  have taken := read_bytes_notices (lowBytes width n)
  rw [low_bytes_length] at taken
  exact notices_then _ taken

-- A length is one byte, or a marker that says how many bytes follow.
theorem encode_length_form (n : Nat) :
    encodeLength n = [n.toUInt8] ∨ ∃ marker width, encodeLength n = marker :: lowBytes width n ∧
      ∀ measured low, readLength measured (marker :: low) = readNumber width low := by
  unfold encodeLength
  split
  · exact .inl rfl
  · right
    split
    · exact ⟨0xfb, 2, rfl, fun _ _ => rfl⟩
    · split
      · exact ⟨0xfc, 4, rfl, fun _ _ => rfl⟩
      · exact ⟨0xfd, 8, rfl, fun _ _ => rfl⟩

theorem read_length_notices (measured : Measured) (n : Nat) :
    Notices (readLength measured) (encodeLength n) := by
  intro piece begins cut
  cases piece with
  | nil => exact ⟨1, 1, List.length_pos_of_ne_nil (Ne.symm cut), Nat.one_pos, rfl⟩
  | cons first low =>
    rcases encode_length_form n with short | ⟨marker, width, marked, read⟩
    · rw [short, List.cons_prefix_cons, List.prefix_nil] at begins
      rw [short, begins.1, begins.2] at cut
      exact absurd rfl cut
    · rw [marked, List.cons_prefix_cons] at begins
      obtain ⟨rfl, below⟩ := begins
      obtain ⟨wanted, missing, bounded, refused⟩ :=
        read_number_notices width n low below fun same => cut (by rw [marked, same])
      refine ⟨wanted, missing, ?_, ?_⟩
      · rw [marked, List.length_cons]
        exact Nat.le_succ_of_le bounded
      · rw [read]
        exact refused

theorem read_text_notices (text : String) (fits : TextFits text) :
    Notices readText (encodeText text) := by
  refine notices_bind (read_length_encode .text _ fits) (read_length_notices .text _) ?_
  exact notices_then _ (read_bytes_notices _)

theorem read_subscription_notices (s : Subscription) (fits : s.Fits) :
    Notices readSubscription (encodeSubscription s) := by
  rw [encodeSubscription, List.append_assoc, List.append_assoc]
  refine notices_bind (read_text_encode _ fits.rawKey) (read_text_notices _ fits.rawKey) ?_
  refine notices_bind (read_text_encode _ fits.targetEvent)
    (read_text_notices _ fits.targetEvent) ?_
  refine notices_bind (read_text_encode _ fits.serviceName)
    (read_text_notices _ fits.serviceName) ?_
  exact notices_then _ (read_text_notices _ fits.signature)

theorem read_subscriptions_notices (subscriptions : List Subscription)
    (fits : ∀ s ∈ subscriptions, s.Fits) :
    Notices (readSubscriptions subscriptions.length)
      (subscriptions.flatMap encodeSubscription) := by
  induction subscriptions with
  | nil => exact notices_nil _
  | cons s others ih =>
    have head := fits s List.mem_cons_self
    rw [List.flatMap_cons]
    refine notices_bind (read_subscription_encode s head) (read_subscription_notices s head) ?_
    exact notices_then _ (ih fun other member => fits other (List.mem_cons_of_mem s member))

theorem decode_notices (subscriptions : List Subscription)
    (few : subscriptions.length < UInt64.size) (fits : ∀ s ∈ subscriptions, s.Fits) :
    Notices decode (encode subscriptions) := by
  refine notices_bind (read_length_encode .list _ few) (read_length_notices .list _) ?_
  exact notices_then _ (read_subscriptions_notices subscriptions fits)

end Cut

-- The lengths of a list and of texts in memory are words, and the forms of a length end at eight
-- bytes.
/-- A blob has one form, is read back whatever follows it, and is refused if any of its end is
missing. So two lists of which one is written as the beginning of the other are the same. -/
theorem blobs_self_delimiting (subscriptions : List Subscription)
    (few : subscriptions.length < UInt64.size) (fits : ∀ s ∈ subscriptions, s.Fits) :
    (∀ code, Written subscriptions code ↔ code = encode subscriptions) ∧
    (∀ rest, Store.decodeBlob (encode subscriptions ++ rest) = .ok subscriptions) ∧
    (∀ piece, piece <+: encode subscriptions → piece ≠ encode subscriptions →
      ∃ wanted missing, wanted ≤ (encode subscriptions).length ∧ 0 < missing ∧
        Store.decodeBlob piece = .error (.undecodable (.endsEarly wanted missing))) ∧
    ∀ others : List Subscription, others.length < UInt64.size → (∀ s ∈ others, s.Fits) →
      encode others <+: encode subscriptions → others = subscriptions := by
  have whole := decode_encode_append subscriptions few fits
  refine ⟨written_iff subscriptions few fits, ?_, ?_, ?_⟩
  · intro rest
    rw [Store.decodeBlob, whole rest]
  · intro piece begins cut
    obtain ⟨wanted, missing, bounded, some_missing, refused⟩ :=
      decode_notices subscriptions few fits piece begins cut
    exact ⟨wanted, missing, bounded, some_missing, by rw [Store.decodeBlob, refused]⟩
  · rintro others others_few others_fit ⟨rest, same⟩
    have read := decode_encode_append others others_few others_fit rest
    have all := whole []
    rw [List.append_nil, ← same, read] at all
    exact Except.ok.inj all

def longKey : List Subscription :=
  [⟨String.ofList (List.replicate 300 'k'), "E", "ä", "T.h"⟩, ⟨"E.s", "E", "s", ""⟩]

theorem long_key_self_delimiting :
    (longKey.length < UInt64.size ∧ ∀ s ∈ longKey, s.Fits) ∧
    Store.decodeBlob (encode longKey ++ [0xff]) = .ok longKey ∧
    ∃ wanted missing, wanted ≤ (encode longKey).length ∧ 0 < missing ∧
      Store.decodeBlob [2, 0xfb, 0x2c] = .error (.undecodable (.endsEarly wanted missing)) := by
  have few : longKey.length < UInt64.size := by decide
  have fits : ∀ s ∈ longKey, s.Fits := by decide +kernel
  obtain ⟨-, whole, cut, -⟩ := blobs_self_delimiting longKey few fits
  refine ⟨⟨few, fits⟩, whole [0xff], cut [2, 0xfb, 0x2c] ?_ ?_⟩
  · decide +kernel
  · decide +kernel

end HandlerIndex.Blob
