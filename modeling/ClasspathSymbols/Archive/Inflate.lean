import ClasspathSymbols.Archive.Bits

/-!
# Inflating

A compressed text is a row of blocks, the last one marked. A block holds bytes as they are, or
items under a pair of codes: single bytes, and copies of what was written a distance ago. Before
the first byte the copies find zeros.
-/
namespace ClasspathSymbols.Archive

inductive Item where
  | byte (b : UInt8)
  | copy (length distance : Nat)
  | blockEnd
  deriving DecidableEq, Repr

structure Codes where
  (literals distances : Code)

def fixedCodes : Codes where
  literals := .ofLengths (List.replicate 144 8 ++ List.replicate 112 9 ++
    List.replicate 24 7 ++ List.replicate 8 8)
  distances := .ofLengths (List.replicate 32 5)

/-- The least length under the `k`th length symbol, and the number of bits that add to it. -/
def lengthClass (k : Nat) : Nat × Nat :=
  if k < 8 then (3 + k, 0)
  else if k < 28 then
    let extra := k / 4 - 1
    (3 + (4 + k % 4) <<< extra, extra)
  else (258, 0)

def distanceClass (k : Nat) : Nat × Nat :=
  if k < 4 then (1 + k, 0)
  else
    let extra := k / 2 - 1
    (1 + (2 + k % 2) <<< extra, extra)

def readInClass : Nat × Nat → Bits → Except InflateError (Nat × Bits)
  | (least, extra), bits => do
    let (more, bits) ← readNumber extra bits
    return (least + more, bits)

def readDistance (code : Code) (bits : Bits) : Except InflateError (Nat × Bits) := do
  let (symbol, bits) ← code.readSymbol bits
  if symbol < 30 then readInClass (distanceClass symbol) bits else throw .corrupt

def finishItem (distances : Code) (symbol : Nat) (bits : Bits) :
    Except InflateError (Item × Bits) :=
  if symbol < 256 then .ok (.byte symbol.toUInt8, bits)
  else if symbol = 256 then .ok (.blockEnd, bits)
  else if symbol < 286 then do
    let (length, bits) ← readInClass (lengthClass (symbol - 257)) bits
    let (distance, bits) ← readDistance distances bits
    return (.copy length distance, bits)
  else .error .corrupt

def readItem (codes : Codes) (bits : Bits) : Except InflateError (Item × Bits) :=
  match codes.literals.readSymbol bits with
  | .ok (symbol, bits) => finishItem codes.distances symbol bits
  | .error e => .error e

theorem readInClass_length {c : Nat × Nat} {v : Nat} {bits rest : Bits}
    (h : readInClass c bits = .ok (v, rest)) : rest.length ≤ bits.length := by
  simp only [readInClass, bind, Except.bind] at h
  split at h
  · cases h
  · rename_i heq
    cases h
    have := readNumber_length heq
    omega

theorem readDistance_length {c : Code} {v : Nat} {bits rest : Bits}
    (h : readDistance c bits = .ok (v, rest)) : rest.length ≤ bits.length := by
  simp only [readDistance, bind, Except.bind] at h
  split at h
  · cases h
  · rename_i heq
    have := Code.readSymbol_length heq
    split at h
    · have := readInClass_length h
      omega
    · cases h

theorem finishItem_length {c : Code} {symbol : Nat} {item : Item} {bits rest : Bits}
    (h : finishItem c symbol bits = .ok (item, rest)) : rest.length ≤ bits.length := by
  unfold finishItem at h
  split at h
  · cases h; exact Nat.le_refl _
  split at h
  · cases h; exact Nat.le_refl _
  split at h
  · simp only [bind, Except.bind] at h
    split at h
    · cases h
    · rename_i h₁
      split at h
      · cases h
      · rename_i h₂
        cases h
        exact Nat.le_trans (readDistance_length h₂) (readInClass_length h₁)
  · cases h

theorem readItem_length {codes : Codes} {item : Item} {bits rest : Bits}
    (h : readItem codes bits = .ok (item, rest)) : rest.length < bits.length := by
  unfold readItem at h
  split at h
  · rename_i heq
    exact Nat.lt_of_le_of_lt (finishItem_length h) (Code.readSymbol_length heq)
  · cases h

def copyWithin (out : ByteArray) (distance : Nat) : Nat → ByteArray
  | 0 => out
  | n + 1 =>
    let b := if distance ≤ out.size then out.data.getD (out.size - distance) 0 else 0
    copyWithin (out.push b) distance n

/-- The items of a block, added to what has been written. Beyond `limit` bytes the rest is left
out. -/
def readItems (limit : Nat) (codes : Codes) (out : ByteArray) (bits : Bits) :
    Except InflateError (ByteArray × Bits) :=
  if limit < out.size then .ok (out, bits)
  else
    match h : readItem codes bits with
    | .error e => .error e
    | .ok (.blockEnd, rest) => .ok (out, rest)
    | .ok (.byte b, rest) =>
      have := readItem_length h
      readItems limit codes (out.push b) rest
    | .ok (.copy length distance, rest) =>
      have := readItem_length h
      readItems limit codes (copyWithin out distance length) rest
termination_by bits.length

def readBytes : Nat → Bits → Except InflateError (List UInt8 × Bits)
  | 0, bits => .ok ([], bits)
  | n + 1, bits => do
    let (b, bits) ← readNumber 8 bits
    let (bytes, bits) ← readBytes n bits
    return (b.toUInt8 :: bytes, bits)

def lengthOrder : List Nat := [16, 17, 18, 0, 8, 7, 9, 6, 10, 5, 11, 4, 12, 3, 13, 2, 14, 1, 15]

def readNumbers (width : Nat) : Nat → Bits → Except InflateError (List Nat × Bits)
  | 0, bits => .ok ([], bits)
  | n + 1, bits => do
    let (v, bits) ← readNumber width bits
    let (vs, bits) ← readNumbers width n bits
    return (v :: vs, bits)

def readRun (previous : Option Nat) (symbol : Nat) (bits : Bits) :
    Except InflateError (List Nat × Bits) := do
  if symbol < 16 then return ([symbol], bits)
  else if symbol = 16 then
    match previous with
    | none => throw .corrupt
    | some length =>
      let (n, bits) ← readNumber 2 bits
      return (List.replicate (3 + n) length, bits)
  else if symbol = 17 then
    let (n, bits) ← readNumber 3 bits
    return (List.replicate (3 + n) 0, bits)
  else
    let (n, bits) ← readNumber 7 bits
    return (List.replicate (11 + n) 0, bits)

/-- Reads `missing` more lengths at most; the last run has to end there. `fuel` bounds the number
of runs, and `missing` runs are always enough. -/
def readLengths (code : Code) : Nat → Nat → List Nat → Bits → Except InflateError (List Nat × Bits)
  | _, 0, lengths, bits => .ok (lengths, bits)
  | 0, _ + 1, _, _ => .error .corrupt
  | fuel + 1, missing + 1, lengths, bits => do
    let (symbol, bits) ← code.readSymbol bits
    let (run, bits) ← readRun lengths.getLast? symbol bits
    if run.length ≤ missing + 1 then
      readLengths code fuel (missing + 1 - run.length) (lengths ++ run) bits
    else throw .corrupt

/-- A code whose words leave a gap is refused, unless it has one word at most. -/
def Code.ofLengths? (lengths : List Nat) : Except InflateError Code :=
  let code := Code.ofLengths lengths
  if code.IsComplete ∨ code.symbols.size ≤ 1 then .ok code else .error .corrupt

def readCodes (bits : Bits) : Except InflateError (Codes × Bits) := do
  let (literalCount, bits) ← readNumber 5 bits
  let (distanceCount, bits) ← readNumber 5 bits
  let (orderCount, bits) ← readNumber 4 bits
  if 286 < literalCount + 257 ∨ 30 < distanceCount + 1 then throw .corrupt
  let (given, bits) ← readNumbers 3 (orderCount + 4) bits
  let pairs := lengthOrder.zip given
  let code := Code.ofLengths ((List.range 19).map fun symbol => (pairs.lookup symbol).getD 0)
  if ¬ code.IsComplete then throw .corrupt
  let total := literalCount + 257 + (distanceCount + 1)
  let (lengths, bits) ← readLengths code total total [] bits
  let literals ← Code.ofLengths? (lengths.take (literalCount + 257))
  let distances ← Code.ofLengths? (lengths.drop (literalCount + 257))
  return (⟨literals, distances⟩, bits)

/-- A block that holds its bytes as they are starts at a byte; the number of its bytes comes twice,
the second time inverted. -/
def readStored (out : ByteArray) (bits : Bits) : Except InflateError (ByteArray × Bits) := do
  let (_, bits) ← readNumber (bits.length % 8) bits
  let (length, bits) ← readNumber 16 bits
  let (inverse, bits) ← readNumber 16 bits
  if length + inverse ≠ 0xFFFF then throw .corrupt
  let (bytes, bits) ← readBytes length bits
  return (bytes.foldl ByteArray.push out, bits)

def readBlock (limit : Nat) (out : ByteArray) (kind : Nat) (bits : Bits) :
    Except InflateError (ByteArray × Bits) :=
  match kind with
  | 0 => readStored out bits
  | 1 => readItems limit fixedCodes out bits
  | 2 => do
    let (codes, bits) ← readCodes bits
    readItems limit codes out bits
  | _ => .error .corrupt

def readBlocks (limit : Nat) : Nat → ByteArray → Bits → Except InflateError ByteArray
  | 0, _, _ => .error .incomplete
  | fuel + 1, out, bits => do
    let (isLast, bits) ← readNumber 1 bits
    let (kind, bits) ← readNumber 2 bits
    let (out, bits) ← readBlock limit out kind bits
    if isLast = 1 ∨ limit < out.size then return out
    readBlocks limit fuel out bits

/-- The bytes of a compressed text, or its first ones where it has more than `limit`. A block has
three bits or more, so that there cannot be more blocks than bits. -/
def inflate (limit : Nat) (bytes : List UInt8) : Except InflateError ByteArray :=
  let bits := bitsOf bytes
  readBlocks limit (bits.length + 1) .empty bits

end ClasspathSymbols.Archive
