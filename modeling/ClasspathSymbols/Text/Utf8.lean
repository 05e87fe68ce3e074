/-!
# UTF-8

A text is read character by character. Where no character starts, the longest piece that begins
one, or else a single byte, is ill-formed: `decode?` refuses the text, `decodeLossy` puts one
replacement character for the piece.
-/
namespace ClasspathSymbols.Text.Utf8

def isTail (b : UInt8) : Bool := 0x80 ≤ b && b ≤ 0xBF

def secondRange (a : UInt8) : UInt8 × UInt8 :=
  if a = 0xE0 then (0xA0, 0xBF) else if a = 0xED then (0x80, 0x9F)
  else if a = 0xF0 then (0x90, 0xBF) else if a = 0xF4 then (0x80, 0x8F) else (0x80, 0xBF)

/-- How many bytes follow the lead byte `a`; nothing starts with other bytes. -/
def tailLength (a : UInt8) : Option Nat :=
  if a < 0x80 then some 0 else if 0xC2 ≤ a && a ≤ 0xDF then some 1
  else if 0xE0 ≤ a && a ≤ 0xEF then some 2 else if 0xF0 ≤ a && a ≤ 0xF4 then some 3 else none

def goodTail (a : UInt8) (want : Nat) (rest : List UInt8) : Nat :=
  match want, rest with
  | 0, _ | _, [] => 0
  | want + 1, b :: rest =>
    if (secondRange a).1 ≤ b && b ≤ (secondRange a).2 then
      1 + ((rest.take want).takeWhile isTail).length
    else 0

/-- The bits of a character: those of the lead byte, then six of each tail byte. -/
def scalar (a : UInt8) (tail : List UInt8) : Char :=
  let lead := if tail.length = 0 then a.toNat else a.toNat % 1 <<< (6 - tail.length)
  Char.ofNat (tail.foldl (fun n b => n * 64 + b.toNat % 64) lead)

/-- The character that `a` and the bytes after it begin with, or `none` for an ill-formed piece;
and how many bytes after `a` it takes. -/
def next (a : UInt8) (rest : List UInt8) : Option Char × Nat :=
  match tailLength a with
  | none => (none, 0)
  | some want =>
    let good := goodTail a want rest
    if good = want then (some (scalar a (rest.take want)), want) else (none, good)

def pieces (s : List UInt8) : List (Option Char) :=
  match s with
  | [] => []
  | a :: rest => (next a rest).1 :: pieces (rest.drop (next a rest).2)
termination_by s.length
decreasing_by
  simp only [List.length_drop, List.length_cons]
  omega

def decodeLossy (s : List UInt8) : List Char := (pieces s).map (·.getD '\uFFFD')

def decode? (s : List UInt8) : Option (List Char) := (pieces s).mapM id

end ClasspathSymbols.Text.Utf8
