/-!
The digests behind the fingerprints of the index service and the names of databases: numbers of 64
bits that differ for different texts, save for rare accidents. Left out is any likeness to the
digests of other programs.
-/
namespace HandlerIndex.Text

def mixDigest (digest : UInt64) (value : Nat) : UInt64 :=
  (digest ^^^ UInt64.ofNat value) * 1099511628211

-- A text is ended by a number that is no character, so that texts cannot run together.
def digestText (digest : UInt64) (text : List Char) : UInt64 :=
  mixDigest (text.foldl (fun digest c => mixDigest digest c.toNat) digest) 0x110000

def digestTexts (texts : List (List Char)) : UInt64 := texts.foldl digestText 14695981039346656037

def hexText (digest : UInt64) : String := String.ofList (Nat.toDigits 16 digest.toNat)

end HandlerIndex.Text
