import HandlerIndex.Text.Utf8

/-!
Texts and their bytes, which blobs keep and the event store sorts by. Writing a text as bytes and
reading them back gives the text again, and the order of texts is the order of their bytes: the
encoding of a smaller character is smaller at the first byte in which the two differ, and no
encoding begins another one.
-/
namespace HandlerIndex.Text

@[simp] theorem of_bytes_to_bytes (text : String) : ofBytes (toBytes text) = .ok text := by
  have same : (⟨(toBytes text).toArray⟩ : ByteArray) = text.toByteArray := by simp [toBytes]
  have read : String.fromUTF8? text.toByteArray = some text := by
    unfold String.fromUTF8?
    rw [dif_pos text.isValidUTF8]
    rfl
  rw [ofBytes, same, read]

theorem to_bytes_flat_map (text : String) :
    toBytes text = text.toList.flatMap String.utf8EncodeChar := by
  have encoded : text.toByteArray = text.toList.utf8Encode := by simp
  rw [toBytes, encoded, List.utf8Encode]
  simp

/-! The order of texts. -/
section Order

theorem byte_eq_iff {a b : Nat} (left : a < UInt8.size) (right : b < UInt8.size) :
    UInt8.ofNat a = UInt8.ofNat b ↔ a = b := by
  rw [← UInt8.toNat_inj, UInt8.toNat_ofNat_of_lt' left, UInt8.toNat_ofNat_of_lt' right]

-- What follows the two characters plays no part: they differ before either of them ends.
theorem encoded_char_lt {c d : Char} (smaller : c < d) (s t : Bytes) :
    String.utf8EncodeChar c ++ s < String.utf8EncodeChar d ++ t := by
  have values : c.val.toNat < d.val.toNat := smaller
  have limit : d.val.toNat < 0x110000 := by
    have valid := d.valid
    simp only [UInt32.isValidChar, Nat.isValidChar] at valid
    omega
  have third (x : Nat) : x / 4096 = x / 64 / 64 := by omega
  have fourth (x : Nat) : x / 262144 = x / 64 / 64 / 64 := by omega
  unfold String.utf8EncodeChar
  generalize c.val.toNat = m at values
  generalize d.val.toNat = n at values limit
  -- Four lengths on either side. The first byte tells the length, and every byte after it holds six
  -- bits.
  simp only [third, fourth]
  repeat' split
  all_goals
    simp (disch := unfold UInt8.size; omega) only [List.cons_append, List.nil_append,
      List.cons_lt_cons_iff, UInt8.ofNat_lt_iff_lt, byte_eq_iff]
    omega

theorem encoded_chars_lt {left right : List Char} (smaller : left < right) :
    left.flatMap String.utf8EncodeChar < right.flatMap String.utf8EncodeChar := by
  induction left generalizing right with
  | nil =>
    cases right with
    | nil => exact absurd smaller (List.not_lt_nil [])
    | cons d rest =>
      simp only [List.flatMap_nil, List.flatMap_cons]
      cases encoded : String.utf8EncodeChar d with
      | nil => exact absurd encoded String.utf8EncodeChar_ne_nil
      | cons byte more => exact List.nil_lt_cons byte _
  | cons c rest ih =>
    cases right with
    | nil => exact absurd smaller (List.not_lt_nil _)
    | cons d others =>
      simp only [List.flatMap_cons]
      rcases List.cons_lt_cons_iff.mp smaller with first | ⟨same, later⟩
      · exact encoded_char_lt first _ _
      · rw [same]
        exact List.append_left_lt (ih later)

@[simp] theorem to_bytes_lt_iff (left right : String) :
    toBytes left < toBytes right ↔ left < right := by
  constructor
  · intro bytes
    rcases Std.lt_trichotomy left right with before | same | after
    · exact before
    · rw [same] at bytes
      exact absurd bytes (List.lt_irrefl _)
    · have reversed := encoded_chars_lt (String.lt_iff.mp after)
      rw [← to_bytes_flat_map, ← to_bytes_flat_map] at reversed
      exact absurd bytes (List.lt_asymm reversed)
  · intro before
    rw [to_bytes_flat_map, to_bytes_flat_map]
    exact encoded_chars_lt (String.lt_iff.mp before)

end Order
end HandlerIndex.Text
