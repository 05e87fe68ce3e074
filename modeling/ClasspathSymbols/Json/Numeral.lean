import ClasspathSymbols.Json

/-!
# Numbers in JSON

A number has digits, and may have a sign, a fraction and an exponent. A value that is taken has to
round to a finite binary fraction of double width; a value that is skipped has not.
-/
namespace ClasspathSymbols.Json

structure Numeral where
  spelling : List Char
  digits : List Char
  fractionLength : Nat
  exponent : Int
  deriving DecidableEq, Repr

inductive NumeralError where
  | atEnd | atChar
  deriving DecidableEq, Repr

def NumeralError.taken : NumeralError → Problem
  | .atEnd => .endsEarly
  | .atChar => .malformed

def someDigits (s : List Char) : Except NumeralError (List Char × List Char) :=
  if s.takeWhile Char.isDigit = [] then .error (if s = [] then .atEnd else .atChar)
  else .ok (s.takeWhile Char.isDigit, s.dropWhile Char.isDigit)

def value (digits : List Char) : Nat := digits.foldl (fun n c => n * 10 + (c.toNat - '0'.toNat)) 0

/-- Digits where a zero stands alone. -/
def readWhole (s : List Char) : Except NumeralError (List Char × List Char) := do
  let (digits, rest) ← someDigits s
  if digits.head? = some '0' ∧ 1 < digits.length then throw .atChar
  return (digits, rest)

def readFraction (s : List Char) : Except NumeralError (List Char × List Char) :=
  match s with
  | '.' :: rest => someDigits rest
  | _ => .ok ([], s)

def readPower (negative : Bool) (s : List Char) : Except NumeralError (Int × List Char) :=
  match someDigits s with
  | .ok (digits, rest) => .ok (if negative then -(value digits : Int) else value digits, rest)
  | .error e => .error e

def readExponent (s : List Char) : Except NumeralError (Int × List Char) :=
  match s with
  | [] => .ok (0, [])
  | c :: rest =>
    if c = 'e' ∨ c = 'E' then
      match rest with
      | '-' :: rest => readPower true rest
      | '+' :: rest => readPower false rest
      | rest => readPower false rest
    else .ok (0, c :: rest)

def readNumeral (s : List Char) : Except NumeralError (Numeral × List Char) := do
  let unsigned := if s.head? = some '-' then s.tail else s
  let (whole, rest) ← readWhole unsigned
  let (fraction, rest) ← readFraction rest
  let (exponent, rest) ← readExponent rest
  return (⟨s.take (s.length - rest.length), whole ++ fraction, fraction.length, exponent⟩, rest)

theorem someDigits_length {s digits rest : List Char}
    (h : someDigits s = .ok (digits, rest)) : rest.length < s.length := by
  have hs := congrArg List.length (List.takeWhile_append_dropWhile (p := Char.isDigit) (l := s))
  unfold someDigits at h
  split at h
  · cases h
  · rename_i hne
    cases h
    have := List.length_pos_iff.2 hne
    rw [List.length_append] at hs
    omega

theorem readWhole_length {s digits rest : List Char}
    (h : readWhole s = .ok (digits, rest)) : rest.length < s.length := by
  simp only [readWhole, bind, Except.bind] at h
  split at h
  · cases h
  · rename_i heq
    split at h
    · cases h
    · cases h
      exact someDigits_length heq

theorem readFraction_length {s digits rest : List Char}
    (h : readFraction s = .ok (digits, rest)) : rest.length ≤ s.length := by
  unfold readFraction at h
  split at h
  · exact Nat.le_of_lt (Nat.lt_succ_of_lt (someDigits_length h))
  · cases h
    exact Nat.le_refl _

theorem readPower_length {negative : Bool} {s rest : List Char} {e : Int}
    (h : readPower negative s = .ok (e, rest)) : rest.length < s.length := by
  unfold readPower at h
  split at h
  · rename_i heq
    cases h
    exact someDigits_length heq
  · cases h

theorem readExponent_length {s rest : List Char} {e : Int}
    (h : readExponent s = .ok (e, rest)) : rest.length ≤ s.length := by
  unfold readExponent at h
  split at h
  · cases h
    exact Nat.le_refl _
  split at h
  · split at h
    · exact Nat.le_of_lt (Nat.lt_succ_of_lt (Nat.lt_succ_of_lt (readPower_length h)))
    · exact Nat.le_of_lt (Nat.lt_succ_of_lt (Nat.lt_succ_of_lt (readPower_length h)))
    · exact Nat.le_of_lt (Nat.lt_succ_of_lt (readPower_length h))
  · cases h
    exact Nat.le_refl _

theorem readNumeral_length {s rest : List Char} {n : Numeral}
    (h : readNumeral s = .ok (n, rest)) : rest.length < s.length := by
  simp only [readNumeral, bind, Except.bind] at h
  split at h
  · cases h
  rename_i hw
  split at h
  · cases h
  rename_i hf
  split at h
  · cases h
  rename_i he
  cases h
  have hw := readWhole_length hw
  have hf := readFraction_length hf
  have he := readExponent_length he
  have : (if s.head? = some '-' then s.tail else s).length ≤ s.length := by
    split <;> simp
  omega

/-- Numbers from here on round to infinity. -/
def infiniteFrom : Nat := 1 <<< 1024 - 1 <<< 970

/-- Whether the number rounds to a finite one. The powers of ten next to the bound are told apart
by counting digits. -/
def Numeral.isFinite (n : Numeral) : Bool :=
  let digits := n.digits.dropWhile (· = '0')
  let magnitude : Int := digits.length + n.exponent - n.fractionLength
  if digits = [] ∨ magnitude ≤ 308 then true
  else if 309 < magnitude then false
  else
    let scale := n.exponent - n.fractionLength
    value digits * Nat.pow 10 scale.toNat < infiniteFrom * Nat.pow 10 (-scale).toNat

def Numeral.taken (n : Numeral) : Except Problem Json :=
  if n.isFinite then .ok (.number (String.ofList n.spelling)) else .error .malformed

def natural? (spelling : String) : Option Nat :=
  if spelling.toList.all Char.isDigit then some (value spelling.toList) else none

end ClasspathSymbols.Json
