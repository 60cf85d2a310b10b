import HandlerIndex.Blob
import HandlerIndex.Proofs.TextBytes

/-!
Reading a blob of the event store gives back what was written into it, whatever bytes come after it.
Lengths are written in at most eight bytes, so a list and its texts have to be shorter than a word
can count. Left out are longer lists and texts, for which there is no machine.
-/
namespace HandlerIndex

def TextFits (text : String) : Prop := (Text.toBytes text).length < UInt64.size

instance (text : String) : Decidable (TextFits text) := inferInstanceAs (Decidable (_ < _))

structure Subscription.Fits (s : Subscription) : Prop where
  rawKey : TextFits s.rawKey
  targetEvent : TextFits s.targetEvent
  serviceName : TextFits s.serviceName
  signature : TextFits s.signature

instance (s : Subscription) : Decidable s.Fits :=
  decidable_of_iff (TextFits s.rawKey ∧ TextFits s.targetEvent ∧ TextFits s.serviceName ∧
    TextFits s.signature)
    ⟨fun ⟨key, event, service, signature⟩ => ⟨key, event, service, signature⟩,
      fun fits => ⟨fits.rawKey, fits.targetEvent, fits.serviceName, fits.signature⟩⟩

namespace Blob
open Text (Bytes)

@[simp] theorem low_bytes_length (width n : Nat) : (lowBytes width n).length = width := by
  induction width generalizing n with
  | zero => rfl
  | succ width ih => simp [lowBytes, ih]

theorem of_low_bytes (width n : Nat) (small : n < Nat.pow 256 width) :
    ofLowBytes (lowBytes width n) = n := by
  induction width generalizing n with
  | zero =>
    have zero : n = 0 := Nat.lt_one_iff.mp small
    simp [lowBytes, ofLowBytes, zero]
  | succ width ih =>
    have above : n / 256 < Nat.pow 256 width := Nat.div_lt_of_lt_mul (by rwa [Nat.mul_comm])
    have byte : n.toUInt8.toNat = n % 256 := by simp
    rw [lowBytes, ofLowBytes, ih _ above, byte]
    omega

@[simp] theorem read_bytes_append (piece rest : Bytes) :
    readBytes piece.length (piece ++ rest) = .ok (piece, rest) := by
  simp [readBytes]

theorem read_number_low_bytes (width n : Nat) (small : n < Nat.pow 256 width) (rest : Bytes) :
    readNumber width (lowBytes width n ++ rest) = .ok (n, rest) := by
  have taken := read_bytes_append (lowBytes width n) rest
  rw [low_bytes_length] at taken
  rw [readNumber, taken]
  simp [bind, Except.bind, of_low_bytes width n small]

theorem read_length_encode (measured : Measured) (n : Nat) (small : n < UInt64.size)
    (rest : Bytes) :
    readLength measured (encodeLength n ++ rest) = .ok (n, rest) := by
  unfold encodeLength
  by_cases short : n ≤ 250
  · rw [if_pos short]
    have byte : n.toUInt8.toNat = n := by
      rw [Nat.toUInt8_eq, UInt8.toNat_ofNat_of_lt' (Nat.lt_of_le_of_lt short (by decide))]
    have first : n.toUInt8 ≤ 250 := by
      rw [UInt8.le_iff_toNat_le, byte]
      exact short
    simp [readLength, first, byte]
  · rw [if_neg short]
    split
    · exact read_number_low_bytes 2 n (by assumption) rest
    · split
      · exact read_number_low_bytes 4 n (by assumption) rest
      · exact read_number_low_bytes 8 n small rest

theorem read_text_encode (text : String) (small : TextFits text) (rest : Bytes) :
    readText (encodeText text ++ rest) = .ok (text, rest) := by
  have length := read_length_encode .text _ small (Text.toBytes text ++ rest)
  have piece := read_bytes_append (Text.toBytes text) rest
  rw [encodeText, List.append_assoc, readText, length]
  simp only [bind, Except.bind, piece, Text.of_bytes_to_bytes]

theorem read_subscription_encode (s : Subscription) (small : s.Fits) (rest : Bytes) :
    readSubscription (encodeSubscription s ++ rest) = .ok (s, rest) := by
  simp only [encodeSubscription, List.append_assoc, readSubscription]
  rw [read_text_encode _ small.rawKey]
  simp only [bind, Except.bind]
  rw [read_text_encode _ small.targetEvent]
  simp only
  rw [read_text_encode _ small.serviceName]
  simp only
  rw [read_text_encode _ small.signature]

theorem read_subscriptions_encode (subscriptions : List Subscription)
    (small : ∀ s ∈ subscriptions, s.Fits) (rest : Bytes) :
    readSubscriptions subscriptions.length (subscriptions.flatMap encodeSubscription ++ rest) =
      .ok (subscriptions, rest) := by
  induction subscriptions with
  | nil => rfl
  | cons s others ih =>
    have head := small s List.mem_cons_self
    have tail := ih fun other member => small other (List.mem_cons_of_mem s member)
    simp only [List.length_cons, List.flatMap_cons, List.append_assoc, readSubscriptions]
    rw [read_subscription_encode s head]
    simp only [bind, Except.bind]
    rw [tail]

theorem decode_encode_append (subscriptions : List Subscription)
    (few : subscriptions.length < UInt64.size) (small : ∀ s ∈ subscriptions, s.Fits)
    (rest : Bytes) :
    decode (encode subscriptions ++ rest) = .ok subscriptions := by
  rw [encode, List.append_assoc, decode, read_length_encode .list _ few]
  simp only [bind, Except.bind]
  rw [read_subscriptions_encode subscriptions small]

end Blob
end HandlerIndex
