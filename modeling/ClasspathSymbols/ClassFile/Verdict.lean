import ClasspathSymbols.ClassFile.Annotations

/-!
# Deprecated classes

A class is deprecated if it carries the attribute `Deprecated`, or a run-time annotation of the
type `java.lang.Deprecated`. The constant pool is read for its texts; everything on members is
skipped. The first attribute that settles the question ends the reading.

The index of a constant has sixteen bits, and a constant of eight bytes at the last index of a full
pool moves it beyond them. There arithmetic that wraps goes on at the index zero, and arithmetic
that is checked stops the program.
-/
namespace ClasspathSymbols.ClassFile

def magic : Nat := 0xCAFEBABE

def textTag : Nat := 1

def constantSize? (tag : Nat) : Option Nat :=
  if tag = 3 ∨ tag = 4 then some 4
  else if tag = 5 ∨ tag = 6 then some 8
  else if tag = 7 ∨ tag = 8 ∨ tag = 16 ∨ tag = 19 ∨ tag = 20 then some 2
  else if 9 ≤ tag ∧ tag ≤ 12 ∨ tag = 17 ∨ tag = 18 then some 4
  else if tag = 15 then some 3
  else none

/-- Constants of eight bytes take two indices. -/
def indexWidth (tag : Nat) : Nat := if tag = 5 ∨ tag = 6 then 2 else 1

/-- A constant that has been read: its text, if it is one, and the indices that it takes. -/
structure PoolEntry where
  text? : Option (List UInt8)
  width : Nat
  deriving DecidableEq, Repr

def readConstant (index : UInt16) : Reader PoolEntry := do
  let tag ← number 1
  if tag = textTag then
    let text ← take (← number 2)
    pure ⟨some text, 1⟩
  else
    match constantSize? tag with
    | none => throw (.badConstant tag index.toNat)
    | some size =>
      skip size
      pure ⟨none, indexWidth tag⟩

theorem indexWidth_le (tag : Nat) : indexWidth tag ≤ 2 := by
  unfold indexWidth
  split <;> decide

theorem readConstant_takes {index : UInt16} {c c' : Cursor} {entry : PoolEntry}
    (h : readConstant index c = .ok (entry, c')) :
    c'.rest.length < c.rest.length ∧ entry.width ≤ 2 := by
  obtain ⟨tag, d, htag, h⟩ := then_eq_ok_iff.1 h
  have hstart := number_length htag
  by_cases ht : tag = textTag
  · rw [if_pos ht] at h
    obtain ⟨length, d', hlength, h⟩ := then_eq_ok_iff.1 h
    obtain ⟨text, d'', htext, h⟩ := then_eq_ok_iff.1 h
    have hcount := number_length hlength
    have htaken := take_length htext
    cases h
    exact ⟨by omega, Nat.le_succ 1⟩
  · rw [if_neg ht] at h
    cases hsize : constantSize? tag with
    | none =>
      rw [hsize] at h
      cases h
    | some size =>
      rw [hsize] at h
      obtain ⟨⟨⟩, d', hskip, h⟩ := then_eq_ok_iff.1 h
      have htaken := skip_length hskip
      cases h
      exact ⟨by omega, indexWidth_le tag⟩

/-- A later text takes the place of an earlier one. -/
def PoolEntry.addTo (entry : PoolEntry) (index : UInt16) (texts : Texts) : Texts :=
  match entry.text? with
  | some text => (index.toNat, text) :: texts
  | none => texts

def wrapping (index : UInt16) (width : Nat) : Id UInt16 := index + .ofNat width

def checked (index : UInt16) (width : Nat) : Option UInt16 :=
  if index.toNat + width < UInt16.size then some (index + .ofNat width) else none

/-- The texts among the constants from `index` up to `count`, added to `texts`. -/
def readConstants {m : Type → Type} [Monad m] (advance : UInt16 → Nat → m UInt16)
    (index count : UInt16) (texts : Texts) (c : Cursor) :
    m (Except ClassFileError (Texts × Cursor)) :=
  if index < count then
    match h : readConstant index c with
    | .error e => pure (.error e)
    | .ok (entry, c') => do
      have := (readConstant_takes h).1
      readConstants advance (← advance index entry.width) count (entry.addTo index texts) c'
  else pure (.ok (texts, c))
termination_by c.rest.length

def skipAttributes : Nat → Reader Unit
  | 0 => pure ()
  | n + 1 => do
    skip 2
    skip (← number 4)
    skipAttributes n

def skipMembers : Nat → Reader Unit
  | 0 => pure ()
  | n + 1 => do
    skip 6
    skipAttributes (← number 2)
    skipMembers n

def deprecatedName : List UInt8 := "Deprecated".toUTF8.data.toList

def annotationsName : List UInt8 := "RuntimeVisibleAnnotations".toUTF8.data.toList

def deprecatedDescriptor : List UInt8 := "Ljava/lang/Deprecated;".toUTF8.data.toList

def attributeSettles (texts : Texts) (name : Nat) (body : List UInt8) :
    Except ClassFileError Bool :=
  if texts.lookup name = some deprecatedName then .ok true
  else if texts.lookup name = some annotationsName then
    annotationsMention texts deprecatedDescriptor body
  else .ok false

def someAttributeSettles (texts : Texts) : Nat → Reader Bool
  | 0 => pure false
  | n + 1 => do
    let name ← number 2
    let body ← take (← number 4)
    if ← (attributeSettles texts name body : Except _ _) then pure true
    else someAttributeSettles texts n

def readCount : Reader UInt16 := do
  if (← number 4) ≠ magic then throw .badMagic
  skip 4
  return .ofNat (← number 2)

def readRest (texts : Texts) : Reader Bool := do
  skip 6
  skip (2 * (← number 2))
  skipMembers (← number 2)
  skipMembers (← number 2)
  someAttributeSettles texts (← number 2)

def verdict {m : Type → Type} [Monad m] (advance : UInt16 → Nat → m UInt16)
    (bytes : List UInt8) : m (Except ClassFileError Bool) := do
  match readCount (Cursor.start bytes) with
  | .error e => return .error e
  | .ok (count, c) =>
    let pool ← readConstants advance 1 count [] c
    return pool.bind fun (texts, c) => (readRest texts c).map Prod.fst

def isDeprecated (bytes : List UInt8) : Except ClassFileError Bool := verdict wrapping bytes

/-- The verdict with checked sums; `none` where one of them stops the program. -/
def isDeprecatedChecked (bytes : List UInt8) : Option (Except ClassFileError Bool) :=
  verdict checked bytes

/-- Some index does not fit into its sixteen bits. -/
def RunsOver (bytes : List UInt8) : Prop := isDeprecatedChecked bytes = none

instance (bytes : List UInt8) : Decidable (RunsOver bytes) :=
  inferInstanceAs (Decidable (_ = _))

end ClasspathSymbols.ClassFile
