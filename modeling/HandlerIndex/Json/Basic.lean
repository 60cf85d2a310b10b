/-!
JSON values, as far as a reader of settings tells them apart. A number that is not a whole number,
written without sign, fraction and exponent, has no value here; nor has a text with half of a
surrogate pair. The place of a value in its text is left out, and so is what the digits of other
numbers are worth.
-/
namespace HandlerIndex

inductive Json where
  | null
  | bool (value : Bool)
  | number (whole : Option Nat)
  | text (content : Option String)
  | array (items : List Json)
  | object (members : List (Option String × Json))

end HandlerIndex
