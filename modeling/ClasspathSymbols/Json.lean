/-!
# JSON values

A number is kept as it is spelled, and the fields of an object in their order.
-/
namespace ClasspathSymbols

inductive Json where
  | null
  | bool (b : Bool)
  | number (spelling : String)
  | string (s : String)
  | array (items : List Json)
  | object (fields : List (String × Json))
  deriving Repr

namespace Json

def ofNat (n : Nat) : Json := .number (toString n)

def ofOption (x : Option Json) : Json := x.getD .null

def strings (xs : List String) : Json := .array (xs.map .string)

/-- What is wrong with a text: its form, its end, or the value that it spells. -/
inductive Problem where
  | malformed | endsEarly | wrongShape
  deriving DecidableEq, Repr

end Json

end ClasspathSymbols
