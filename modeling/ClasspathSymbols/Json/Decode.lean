import ClasspathSymbols.Json.Reading

/-!
# Decoding JSON

A decoder goes through a reading in the order of the text and stops at the first problem: a value
of the wrong shape counts before a text that is broken later on. `buffer` takes a whole value
before anything looks at its shape. Values that nobody asks for are skipped.
-/
namespace ClasspathSymbols.Json

def Ending.check : Ending → Except Problem Unit
  | .closed => .ok ()
  | .broken p => .error p

mutual

def Reading.skip : Reading → Except Problem Unit
  | .broken p => .error p
  | .scalar s => s.skipped
  | .array items ending => do
    skipItems items
    ending.check
  | .object fields ending => do
    skipFields fields
    ending.check

def skipItems : List Reading → Except Problem Unit
  | [] => .ok ()
  | r :: rest => do
    r.skip
    skipItems rest

def skipFields : List (Scalar × Reading) → Except Problem Unit
  | [] => .ok ()
  | (key, r) :: rest => do
    key.skipped
    r.skip
    skipFields rest

end

/-- Reads a value at a place that `depth` arrays and objects are around. -/
abbrev Decoder (α : Type) := Nat → Reading → Except Problem α

def maxDepth : Nat := 127

def enter (depth : Nat) : Except Problem Nat :=
  if depth < maxDepth then .ok (depth + 1) else .error .malformed

def keyText (key : Scalar) : Except Problem String := do
  match ← key.taken with
  | .string s => return s
  | _ => throw .wrongShape

mutual

def Reading.buffer (depth : Nat) : Reading → Except Problem Json
  | .broken p => .error p
  | .scalar s => s.taken
  | .array items ending => do
    let values ← bufferItems (← enter depth) items
    ending.check
    return .array values
  | .object fields ending => do
    let values ← bufferFields (← enter depth) fields
    ending.check
    return .object values

def bufferItems (depth : Nat) : List Reading → Except Problem (List Json)
  | [] => .ok []
  | r :: rest => do
    let v ← r.buffer depth
    return v :: (← bufferItems depth rest)

def bufferFields (depth : Nat) : List (Scalar × Reading) → Except Problem (List (String × Json))
  | [] => .ok []
  | (key, r) :: rest => do
    let key ← keyText key
    let v ← r.buffer depth
    return (key, v) :: (← bufferFields depth rest)

end

def Decoder.scalarOf {α : Type} (f : Json → Option α) : Decoder α := fun _ r =>
  match r with
  | .broken p => .error p
  | .scalar s => do
    match f (← s.taken) with
    | some v => return v
    | none => throw .wrongShape
  | _ => .error .wrongShape

def string? : Json → Option String
  | .string s => some s
  | _ => none

def bool? : Json → Option Bool
  | .bool b => some b
  | _ => none

def naturalBelow? (bound : Nat) : Json → Option Nat
  | .number spelling => (natural? spelling).filter (· < bound)
  | _ => none

def Decoder.string : Decoder String := Decoder.scalarOf string?

def Decoder.bool : Decoder Bool := Decoder.scalarOf bool?

def Decoder.naturalBelow (bound : Nat) : Decoder Nat := Decoder.scalarOf (naturalBelow? bound)

def Decoder.list {α : Type} (item : Decoder α) : Decoder (List α) := fun depth r =>
  match r with
  | .broken p => .error p
  | .scalar s => do
    let _ ← s.taken
    throw .wrongShape
  | .array items ending => do
    let depth ← enter depth
    let values ← items.mapM (item depth)
    ending.check
    return values
  | .object _ _ => .error .wrongShape

def foldFields {σ : Type} (step : σ → String → Reading → Except Problem σ) :
    σ → List (Scalar × Reading) → Except Problem σ
  | s, [] => .ok s
  | s, (key, r) :: rest => do
    let s ← step s (← keyText key) r
    foldFields step s rest

def Decoder.object {σ α : Type} (start : σ) (step : Nat → σ → String → Reading → Except Problem σ)
    (finish : σ → Except Problem α) : Decoder α := fun depth r =>
  match r with
  | .broken p => .error p
  | .scalar s => do
    let _ ← s.taken
    throw .wrongShape
  | .array _ _ => .error .wrongShape
  | .object fields ending => do
    let depth ← enter depth
    let s ← foldFields (step depth) start fields
    ending.check
    finish s

structure Items where
  rest : List Reading
  ending : Ending

def Items.next {α : Type} (item : Decoder α) (depth : Nat) (xs : Items) :
    Except Problem (Option α × Items) :=
  match xs.rest with
  | [] => do
    xs.ending.check
    return (none, xs)
  | r :: rest => do
    let v ← item depth r
    return (some v, ⟨rest, xs.ending⟩)

def Items.done (xs : Items) : Except Problem Unit :=
  match xs.rest with
  | [] => xs.ending.check
  | _ :: _ => .error .malformed

/-- A record that is an object, or an array of its fields in order. -/
def Decoder.record {σ α : Type} (start : σ) (step : Nat → σ → String → Reading → Except Problem σ)
    (finish : σ → Except Problem α) (fromItems : Nat → Items → Except Problem (α × Items)) :
    Decoder α := fun depth r =>
  match r with
  | .array items ending => do
    let depth ← enter depth
    let (v, rest) ← fromItems depth ⟨items, ending⟩
    rest.done
    return v
  | r => Decoder.object start step finish depth r

def once {α : Type} (old : Option α) (read : Except Problem α) : Except Problem (Option α) :=
  match old with
  | some _ => .error .wrongShape
  | none => read.map some

def decode {α : Type} (d : Decoder α) (text : String) : Except Problem α := do
  let (r, trailing) := readAll text
  let v ← d 0 r
  if trailing then throw .malformed
  return v

end ClasspathSymbols.Json
