import ClasspathSymbols.Json.Numeral
import ClasspathSymbols.Json.Text

/-!
# Tokens of JSON

A scalar is read for two uses at once: to be taken, and to be skipped, where less is asked of it.
What cannot even be skipped ends the row of tokens.
-/
namespace ClasspathSymbols.Json

structure Scalar where
  taken : Except Problem Json
  skipped : Except Problem Unit

inductive Token where
  | opening (isObject : Bool)
  | closing (isObject : Bool)
  | comma
  | colon
  | text (s : Scalar)
  | atom (s : Scalar)
  | unknown

def isSpace (c : Char) : Bool := c = ' ' || c = '\n' || c = '\t' || c = '\r'

def readWord : List Char → List Char → Except Problem (List Char)
  | [], s => .ok s
  | _ :: _, [] => .error .endsEarly
  | c :: word, d :: s => if c = d then readWord word s else .error .malformed

theorem readWord_length {word s rest : List Char} (h : readWord word s = .ok rest) :
    rest.length ≤ s.length := by
  induction word generalizing s with
  | nil => cases h; exact Nat.le_refl _
  | cons c word ih =>
    cases s with
    | nil => cases h
    | cons d s =>
      unfold readWord at h
      split at h
      · exact Nat.le_succ_of_le (ih h)
      · cases h

/-- A scalar that fails for both uses, after which nothing is read. -/
def Scalar.failed (taken skipped : Problem) : Scalar := ⟨.error taken, .error skipped⟩

def textScalar (s : List Char) : Scalar × Option (List Char) :=
  let taken := (readText s).map fun t => Json.string (String.ofList t)
  match skipText s with
  | .ok rest => (⟨taken, .ok ()⟩, some rest)
  | .error e => (⟨taken, .error e⟩, none)

def wordScalar (value : Json) (word s : List Char) : Scalar × Option (List Char) :=
  match readWord word s with
  | .ok rest => (⟨.ok value, .ok ()⟩, some rest)
  | .error e => (.failed e e, none)

/-- A number that ends early counts as malformed where it is skipped. -/
def numberScalar (s : List Char) : Scalar × Option (List Char) :=
  match readNumeral s with
  | .ok (n, rest) => (⟨n.taken, .ok ()⟩, some rest)
  | .error e => (.failed e.taken .malformed, none)

/-- The token that begins with `c`, and what follows it if reading goes on. -/
def readToken (c : Char) (rest : List Char) : Token × Option (List Char) :=
  match c with
  | '[' => (.opening false, some rest)
  | '{' => (.opening true, some rest)
  | ']' => (.closing false, some rest)
  | '}' => (.closing true, some rest)
  | ',' => (.comma, some rest)
  | ':' => (.colon, some rest)
  | '"' => (textScalar rest).map .text id
  | 'n' => (wordScalar .null "ull".toList rest).map .atom id
  | 't' => (wordScalar (.bool true) "rue".toList rest).map .atom id
  | 'f' => (wordScalar (.bool false) "alse".toList rest).map .atom id
  | c => if c = '-' ∨ c.isDigit then (numberScalar (c :: rest)).map .atom id else (.unknown, none)

theorem textScalar_length {s rest : List Char} (h : (textScalar s).2 = some rest) :
    rest.length < s.length := by
  unfold textScalar at h
  split at h
  · cases h
    exact skipText_length ‹_›
  · cases h

theorem wordScalar_length {v : Json} {word s rest : List Char}
    (h : (wordScalar v word s).2 = some rest) : rest.length ≤ s.length := by
  unfold wordScalar at h
  split at h
  · cases h
    exact readWord_length ‹_›
  · cases h

theorem numberScalar_length {s rest : List Char} (h : (numberScalar s).2 = some rest) :
    rest.length < s.length := by
  unfold numberScalar at h
  split at h
  · cases h
    exact readNumeral_length ‹_›
  · cases h

theorem readToken_length {c : Char} {s rest : List Char} (h : (readToken c s).2 = some rest) :
    rest.length ≤ s.length := by
  unfold readToken at h
  split at h
  case h_7 => exact Nat.le_of_lt (textScalar_length h)
  case h_8 => exact wordScalar_length h
  case h_9 => exact wordScalar_length h
  case h_10 => exact wordScalar_length h
  case h_11 =>
    split at h
    · exact Nat.le_of_lt_succ (numberScalar_length h)
    · cases h
  all_goals
    cases h
    exact Nat.le_refl _

def tokens (s : List Char) : List Token :=
  match s with
  | [] => []
  | c :: rest =>
    if isSpace c then tokens rest
    else
      match h : (readToken c rest).2 with
      | none => [(readToken c rest).1]
      | some rest' =>
        have := readToken_length h
        (readToken c rest).1 :: tokens rest'
termination_by s.length

end ClasspathSymbols.Json
