import ClasspathSymbols.Json.Token

/-!
# Readings of JSON

A text is read as far as it goes. The reading has the form of a value, and tells where the text
breaks off and why; whoever uses it goes through it in the order of the text, so that of several
problems the first one counts.
-/
namespace ClasspathSymbols.Json

/-- Whether an array or object is closed, or what comes in the way. -/
inductive Ending where
  | closed
  | broken (p : Problem)
  deriving DecidableEq, Repr

inductive Reading where
  /-- No value where there has to be one. -/
  | broken (p : Problem)
  | scalar (s : Scalar)
  | array (items : List Reading) (ending : Ending)
  | object (fields : List (Scalar × Reading)) (ending : Ending)

/-- An array or object that waits for the value now read; what it has so far stands in reverse. -/
inductive Frame where
  | array (before : List Reading)
  | object (before : List (Scalar × Reading)) (key : Scalar)

inductive Phase where
  | value
  | inArray (before : List Reading)
  | inObject (before : List (Scalar × Reading))
  | afterComma (before : List (Scalar × Reading))
  | afterKey (before : List (Scalar × Reading)) (key : Scalar)

/-- Ends the reading: `v` is the innermost value, and what is around it breaks off too. -/
def breakOff (p : Problem) (v : Reading) : List Frame → Reading
  | [] => v
  | .array before :: frames =>
    breakOff p (.array (v :: before).reverse (.broken p)) frames
  | .object before key :: frames =>
    breakOff p (.object ((key, v) :: before).reverse (.broken p)) frames

def Phase.breakOff (ph : Phase) (p : Problem) (frames : List Frame) : Reading :=
  Json.breakOff p (match ph with
    | .value => .broken p
    | .inArray before => .array before.reverse (.broken p)
    | .inObject before | .afterComma before => .object before.reverse (.broken p)
    | .afterKey before key => .object ((key, .broken p) :: before).reverse (.broken p)) frames

/-- What the next token does: it goes on, ends the reading, or completes a value. -/
inductive Move where
  | go (frames : List Frame) (phase : Phase)
  | complete (v : Reading) (frames : List Frame)
  | stop

def moveAtValue (frames : List Frame) : Token → Move
  | .text s | .atom s => .complete (.scalar s) frames
  | .opening false => .go frames (.inArray [])
  | .opening true => .go frames (.inObject [])
  | _ => .stop

def moveAtKey (frames : List Frame) (before : List (Scalar × Reading)) : Token → Move
  | .text s => .go frames (.afterKey before s)
  | _ => .stop

def move (frames : List Frame) (ph : Phase) (t : Token) : Move :=
  match ph, t with
  | .value, t => moveAtValue frames t
  | .inArray before, .closing false => .complete (.array before.reverse .closed) frames
  | .inArray [], t => moveAtValue (.array [] :: frames) t
  | .inArray before, .comma => .go (.array before :: frames) .value
  | .inObject before, .closing true => .complete (.object before.reverse .closed) frames
  | .inObject [], t => moveAtKey frames [] t
  | .inObject before, .comma => .go frames (.afterComma before)
  | .afterComma before, t => moveAtKey frames before t
  | .afterKey before key, .colon => .go (.object before key :: frames) .value
  | _, _ => .stop

def plug (v : Reading) : Frame → Phase
  | .array before => .inArray (v :: before)
  | .object before key => .inObject ((key, v) :: before)

/-- The reading of a row of tokens, and whether tokens follow it. -/
def read (frames : List Frame) (ph : Phase) : List Token → Reading × Bool
  | [] => (ph.breakOff .endsEarly frames, false)
  | t :: rest =>
    match move frames ph t with
    | .go frames ph => read frames ph rest
    | .stop => (ph.breakOff .malformed frames, false)
    | .complete v [] => (v, !rest.isEmpty)
    | .complete v (f :: frames) => read frames (plug v f) rest

def readAll (s : String) : Reading × Bool := read [] .value (tokens s.toList)

end ClasspathSymbols.Json
