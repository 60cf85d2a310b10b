/-!
Texts as bytes, in blobs and in files. Bytes are read back as a text exactly when they are one in
UTF-8; otherwise the fault says how many bytes before it are fine, and how many belong to it. Left
out are other encodings.
-/
namespace HandlerIndex.Text

abbrev Bytes := List UInt8

def toBytes (text : String) : Bytes := text.toByteArray.data.toList

/-- Where bytes stop being a text. There is no length when the bytes end inside a character. -/
structure TextFault where
  valid : Nat
  length : Option Nat
  deriving DecidableEq, Repr

inductive Leading where
  | character (more : Nat)
  | cut
  | broken (length : Nat)
  deriving DecidableEq, Repr

def follows (first : UInt8) : Option (Nat × UInt8 × UInt8) :=
  if first < 0xc2 then none
  else if first < 0xe0 then some (1, 0x80, 0xbf)
  else if first = 0xe0 then some (2, 0xa0, 0xbf)
  else if first = 0xed then some (2, 0x80, 0x9f)
  else if first < 0xf0 then some (2, 0x80, 0xbf)
  else if first = 0xf0 then some (3, 0x90, 0xbf)
  else if first < 0xf4 then some (3, 0x80, 0xbf)
  else if first = 0xf4 then some (3, 0x80, 0x8f)
  else none

def isContinuation (byte : UInt8) : Bool := 0x80 ≤ byte && byte ≤ 0xbf

def readContinuation (more read : Nat) : Nat → Bytes → Leading
  | 0, _ => .character more
  | _ + 1, [] => .cut
  | left + 1, byte :: rest =>
    if isContinuation byte then readContinuation more (read + 1) left rest else .broken read

def leading (first : UInt8) (rest : Bytes) : Leading :=
  if first < 0x80 then .character 0
  else
    match follows first, rest with
    | none, _ => .broken 1
    | some _, [] => .cut
    | some (more, low, high), second :: rest =>
      if low ≤ second ∧ second ≤ high then readContinuation more 2 (more - 1) rest else .broken 1

def faultFrom (valid : Nat) : Bytes → TextFault
  | [] => ⟨valid, none⟩
  | first :: rest =>
    match leading first rest with
    | .character more => faultFrom (valid + 1 + more) (rest.drop more)
    | .cut => ⟨valid, none⟩
    | .broken length => ⟨valid, some length⟩
termination_by bytes => bytes.length
decreasing_by simp only [List.length_cons, List.length_drop]; omega

def ofBytes (bytes : Bytes) : Except TextFault String :=
  match String.fromUTF8? ⟨bytes.toArray⟩ with
  | some text => .ok text
  | none => .error (faultFrom 0 bytes)

end HandlerIndex.Text
