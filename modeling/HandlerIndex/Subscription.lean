/-!
Subscriptions: one handler, registered under one raw key. The handler is named by its signature, the
type's name with dots in place of the namespace separators, a dot, and the method's name. Where in a
file a subscription stands is left out.
-/
namespace HandlerIndex

structure Subscription where
  rawKey : String
  targetEvent : String
  serviceName : String
  signature : String
  deriving DecidableEq, Repr

def stripBackslashes (cs : List Char) : List Char :=
  ((cs.dropWhile (· == '\\')).reverse.dropWhile (· == '\\')).reverse

/-- The signature of a method. A type or method without a name has none. -/
def handlerSignature (typeName methodName : String) : Option String :=
  let type := stripBackslashes typeName.toList
  let method := methodName.toList
  if type = [] ∨ method = [] then none
  else
    let dotted := type.map fun c => if c = '\\' then '.' else c
    some (String.ofList (dotted ++ '.' :: method))

end HandlerIndex
