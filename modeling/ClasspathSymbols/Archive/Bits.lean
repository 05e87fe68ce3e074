/-!
# Bit streams

The bits of a compressed text, lowest bit of each byte first, and the codes that are read from
them. A code is given by the length of each symbol's word: words are counted upwards, shorter
ones first and those of one length in the order of their symbols. Every read that succeeds takes
what it says from the front of the stream.
-/
namespace ClasspathSymbols.Archive

inductive InflateError where
  | corrupt | incomplete
  deriving DecidableEq, Repr

abbrev Bits := List Bool

def bitsOf (bytes : List UInt8) : Bits :=
  bytes.flatMap fun b => (List.range 8).map b.toNat.testBit

def readNumber : Nat → Bits → Except InflateError (Nat × Bits)
  | 0, bits => .ok (0, bits)
  | _ + 1, [] => .error .incomplete
  | n + 1, b :: bits =>
    match readNumber n bits with
    | .ok (high, rest) => .ok (2 * high + b.toNat, rest)
    | .error e => .error e

theorem readNumber_length {n v : Nat} {bits rest : Bits}
    (h : readNumber n bits = .ok (v, rest)) : bits.length = n + rest.length := by
  induction n generalizing v bits with
  | zero => cases h; simp
  | succ n ih =>
    cases bits with
    | nil => cases h
    | cons b bits =>
      unfold readNumber at h
      split at h
      · rename_i heq
        cases h
        simp only [List.length_cons, ih heq]
        omega
      · cases h

structure Code where
  /-- How many words there are of length one, two and so on. -/
  counts : List Nat
  /-- The symbols in the order of their words. -/
  symbols : Array Nat
  deriving Repr

namespace Code

def maxLength : Nat := 15

def ofLengths (lengths : List Nat) : Code where
  counts := (List.range maxLength).map fun k => lengths.count (k + 1)
  symbols := ((List.range maxLength).flatMap fun k =>
    lengths.zipIdx.filterMap fun (length, symbol) =>
      if length = k + 1 then some symbol else none).toArray

def IsComplete (c : Code) : Prop :=
  c.counts.foldl (fun filled n => 2 * filled + n) 0 = 1 <<< maxLength

instance (c : Code) : Decidable c.IsComplete := inferInstanceAs (Decidable (_ = _))

/-- Reads on inside a word: `beyond` tells how far it lies after the words that are as long as
what has been read, and `index` counts the shorter words. -/
def readWord (symbols : Array Nat) :
    List Nat → Nat → Nat → Bits → Except InflateError (Nat × Bits)
  | [], _, _, _ => .error .corrupt
  | _ :: _, _, _, [] => .error .incomplete
  | n :: counts, beyond, index, b :: bits =>
    let place := 2 * beyond + b.toNat
    if place < n then
      match symbols[index + place]? with
      | some symbol => .ok (symbol, bits)
      | none => .error .corrupt
    else readWord symbols counts (place - n) (index + n) bits

def readSymbol (c : Code) (bits : Bits) : Except InflateError (Nat × Bits) :=
  readWord c.symbols c.counts 0 0 bits

theorem readWord_length {symbols : Array Nat} {counts : List Nat} {beyond index v : Nat}
    {bits rest : Bits} (h : readWord symbols counts beyond index bits = .ok (v, rest)) :
    rest.length < bits.length := by
  induction counts generalizing beyond index bits with
  | nil => cases h
  | cons n counts ih =>
    cases bits with
    | nil => cases h
    | cons b bits =>
      simp only [readWord] at h
      split at h
      · split at h
        · cases h; simp
        · cases h
      · exact Nat.lt_succ_of_lt (ih h)

theorem readSymbol_length {c : Code} {v : Nat} {bits rest : Bits}
    (h : c.readSymbol bits = .ok (v, rest)) : rest.length < bits.length :=
  readWord_length h

end Code

end ClasspathSymbols.Archive
