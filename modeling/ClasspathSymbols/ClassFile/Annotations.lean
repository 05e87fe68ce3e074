import ClasspathSymbols.ClassFile.Cursor

/-!
# Annotations

An annotation names its type and lists pairs of an element name and a value; values nest without
bound. Only the types of the outermost annotations matter, so the pairs are skipped. What is still
to be skipped is kept on a list: every step takes bytes or shortens it.
-/
namespace ClasspathSymbols.ClassFile

abbrev Texts := List (Nat × List UInt8)

inductive Pending where
  | values (count : Nat)
  | pairs (count : Nat)
  deriving DecidableEq, Repr

inductive ValueForm where
  /-- A type name and a constant name. -/
  | enumConstant
  | nested
  | array
  /-- One constant. -/
  | constant
  deriving DecidableEq, Repr

def ValueForm.ofTag (tag : Nat) : ValueForm :=
  if tag = 'e'.toNat then .enumConstant
  else if tag = '@'.toNat then .nested
  else if tag = '['.toNat then .array
  else .constant

def skipPending (todo : List Pending) (c : Cursor) : Except ClassFileError Cursor :=
  match todo with
  | [] => .ok c
  | .values 0 :: todo | .pairs 0 :: todo => skipPending todo c
  | .pairs (n + 1) :: todo =>
    match h : skip 2 c with
    | .error e => .error e
    | .ok ((), c') =>
      have := skip_length h
      skipPending (.values 1 :: .pairs n :: todo) c'
  | .values (n + 1) :: todo =>
    match h : number 1 c with
    | .error e => .error e
    | .ok (tag, c') =>
      have := number_length h
      match ValueForm.ofTag tag with
      | .enumConstant =>
        match h : skip 4 c' with
        | .error e => .error e
        | .ok ((), c'') =>
          have := skip_length h
          skipPending (.values n :: todo) c''
      | .nested =>
        match h : skip 2 c' with
        | .error e => .error e
        | .ok ((), c'') =>
          have := skip_length h
          match h : number 2 c'' with
          | .error e => .error e
          | .ok (count, c''') =>
            have := number_length h
            skipPending (.pairs count :: .values n :: todo) c'''
      | .array =>
        match h : number 2 c' with
        | .error e => .error e
        | .ok (count, c'') =>
          have := number_length h
          skipPending (.values count :: .values n :: todo) c''
      | .constant =>
        match h : skip 2 c' with
        | .error e => .error e
        | .ok ((), c'') =>
          have := skip_length h
          skipPending (.values n :: todo) c''
termination_by (c.rest.length, todo.length)

def skipValue (c : Cursor) : Except ClassFileError Cursor := skipPending [.values 1] c

def skipPairs (c : Cursor) : Except ClassFileError Cursor := do
  let (count, c) ← number 2 c
  skipPending [.pairs count] c

def someMentions (texts : Texts) (descriptor : List UInt8) :
    Nat → Cursor → Except ClassFileError Bool
  | 0, _ => .ok false
  | count + 1, c => do
    let (type, c) ← number 2 c
    if texts.lookup type = some descriptor then .ok true
    else someMentions texts descriptor count (← skipPairs c)

/-- Whether the body of an annotations attribute mentions the type; positions count from the start
of the body. -/
def annotationsMention (texts : Texts) (descriptor body : List UInt8) :
    Except ClassFileError Bool := do
  let (count, c) ← number 2 (Cursor.start body)
  someMentions texts descriptor count c

end ClasspathSymbols.ClassFile
