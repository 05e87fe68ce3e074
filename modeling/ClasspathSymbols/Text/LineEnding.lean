/-!
# Line endings

A line ends in a line feed, a carriage return, or the two in that order. Normalisation leaves
line feeds only. `normalize` replaces pairs first and then single carriage returns; `unify` does
the same in one pass.
-/
namespace ClasspathSymbols.Text

/-- Turns each carriage return that a line feed follows, and the line feed, into one line feed. -/
def joinPairs : List Char → List Char
  | '\r' :: '\n' :: rest => '\n' :: joinPairs rest
  | c :: rest => c :: joinPairs rest
  | [] => []

def normalize (s : List Char) : List Char :=
  (joinPairs s).map fun c => if c = '\r' then '\n' else c

/-- One pass from left to right with the meaning of `normalize`. -/
def unify : List Char → List Char
  | '\r' :: '\n' :: rest => '\n' :: unify rest
  | c :: rest => (if c = '\r' then '\n' else c) :: unify rest
  | [] => []

/-- A text with normalised line endings, and whether it had them already. -/
structure Normalized where
  text : String
  unchanged : Bool
  deriving DecidableEq, Repr

def normalizeText (s : String) : Normalized :=
  if s.toList.contains '\r' then ⟨String.ofList (normalize s.toList), false⟩ else ⟨s, true⟩

end ClasspathSymbols.Text
