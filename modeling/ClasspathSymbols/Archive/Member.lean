import ClasspathSymbols.Archive.Directory
import ClasspathSymbols.Archive.Inflate
import ClasspathSymbols.Digest.Crc32

/-!
# The members of an archive

Each header of the directory describes one member and points at the member's own header, which
the data follows. Names, sizes and the checksum are taken from the directory.
-/
namespace ClasspathSymbols.Archive

inductive Method where
  | stored | deflated | other (number : Nat)
  deriving DecidableEq, Repr

def Method.ofNumber : Nat → Method
  | 0 => .stored
  | 8 => .deflated
  | n => .other n

def cipherMethod : Method := .other 99

structure Member where
  name : String
  encrypted : Bool
  method : Method
  checksum : Nat
  packedSize : Nat
  plainSize : Nat
  /-- Where the member's own header begins. -/
  header : Nat
  /-- Whether a field describes a cipher. -/
  hasCipher : Bool
  deriving DecidableEq, Repr

inductive DataError where
  | corrupt | incomplete | badChecksum | tooLong (limit : Nat)
  deriving DecidableEq, Repr

def nameOf (marked : Bool) (bytes : List UInt8) : String :=
  String.ofList (if marked then Text.Utf8.decodeLossy bytes else CodePage437.decode bytes)

/-- A field of four bytes with this value does not hold its value. -/
def beyondField : Nat := 0xFFFFFFFF

def widen (value : Nat) (wide : List UInt8) : Option (Nat × List UInt8) :=
  if value ≠ beyondField then some (value, wide)
  else if wide.length < 8 then none
  else some (littleEndian (wide.take 8), wide.drop 8)

/-- The member with the wide values put in, and the number of bytes that they take, or `none`
where they end early. -/
def Member.widen (m : Member) (wide : List UInt8) : Member × Option Nat :=
  match Archive.widen m.plainSize wide with
  | none => (m, none)
  | some (plainSize, afterPlain) =>
    let m := { m with plainSize }
    match Archive.widen m.packedSize afterPlain with
    | none => (m, none)
    | some (packedSize, afterPacked) =>
      let m := { m with packedSize }
      match Archive.widen m.header afterPacked with
      | none => (m, none)
      | some (header, rest) => ({ m with header }, some (wide.length - rest.length))

def cipherFieldLength : Nat := 7

/-- The member with its cipher noted; the field names the method under the cipher. -/
def Member.describeCipher (m : Member) (body : List UInt8) : Except ArchiveError Member := do
  if field body 2 2 ≠ 0x4541 then throw .cipherVendor
  if ¬ [1, 2].contains (field body 0 2) then throw .cipherVendorVersion
  if ¬ [1, 2, 3].contains (field body 4 1) then throw .cipherStrength
  return { m with method := .ofNumber (field body 5 2), hasCipher := true }

/-- Takes in the extra fields of a header. Reading ends quietly where the bytes do. -/
def Member.takeFields (m : Member) (extra : List UInt8) : Except ArchiveError Member :=
  match extra with
  | k₀ :: k₁ :: l₀ :: l₁ :: body =>
    let kind := littleEndian [k₀, k₁]
    let length := littleEndian [l₀, l₁]
    if kind = 0x0001 then
      match m.widen body with
      | (m, none) => .ok m
      | (m, some used) => m.takeFields (body.drop (max used length))
    else if kind = 0x9901 then
      if length ≠ cipherFieldLength then .error .cipherFieldLength
      else if body.length < cipherFieldLength then .ok m
      else
        match m.describeCipher body with
        | .ok m => m.takeFields (body.drop (2 * cipherFieldLength))
        | .error e => .error e
    else m.takeFields (body.drop length)
  | _ => .ok m
termination_by extra.length
decreasing_by
  all_goals
    simp only [List.length_drop, List.length_cons]
    omega

def headerLength : Nat := 46

def readHeader (file : ByteArray) (origin start : Nat) :
    Except ArchiveError (Member × Nat) := do
  let signature ← bytesAt file start 4
  if littleEndian signature ≠ directorySignature then throw .badDirectoryHeader
  let header ← bytesAt file start headerLength
  let flags := field header 8 2
  let name ← bytesAt file (start + headerLength) (field header 28 2)
  let extra ← bytesAt file (start + headerLength + name.length) (field header 30 2)
  let comment ← bytesAt file (start + headerLength + name.length + extra.length) (field header 32 2)
  let m : Member := {
    name := nameOf (flags.testBit 11) name
    encrypted := flags.testBit 0
    method := .ofNumber (field header 10 2)
    checksum := field header 16 4
    packedSize := field header 20 4
    plainSize := field header 24 4
    header := field header 42 4
    hasCipher := false }
  let m ← m.takeFields extra
  if m.method = cipherMethod ∧ !m.hasCipher then throw .cipherUndescribed
  if wordSize ≤ m.header + origin then throw .headerOutOfRange
  return ({ m with header := m.header + origin },
    start + headerLength + name.length + extra.length + comment.length)

def readHeaders (file : ByteArray) (origin : Nat) :
    Nat → Nat → Except ArchiveError (List Member)
  | _, 0 => .ok []
  | start, count + 1 => do
    let (m, next) ← readHeader file origin start
    return m :: (← readHeaders file origin next count)

theorem readHeaders_cons {file : ByteArray} {origin start count : Nat} {m : Member}
    {ms : List Member} (next : Nat) (hm : readHeader file origin start = .ok (m, next))
    (hms : readHeaders file origin next count = .ok ms) :
    readHeaders file origin start (count + 1) = .ok (m :: ms) := by
  rw [readHeaders, hm]
  dsimp only [bind, Except.bind]
  rw [hms]
  rfl

def members (file : ByteArray) : Except ArchiveError (List Member) := do
  let p ← directoryPlace file
  readHeaders file p.origin p.directory p.members

theorem members_eq_ok {file : ByteArray} {origin directory count : Nat} {ms : List Member}
    (hplace : directoryPlace file = .ok ⟨origin, directory, count⟩)
    (hms : readHeaders file origin directory count = .ok ms) : members file = .ok ms := by
  rw [members, hplace]
  exact hms

def Member.dataStart (m : Member) (file : ByteArray) : Except ArchiveError Nat := do
  if m.encrypted then throw .encrypted
  let signature ← bytesAt file m.header 4
  if littleEndian signature ≠ localSignature then throw .badLocalHeader
  let header ← bytesAt file m.header 30
  match m.method with
  | .other _ => throw .unsupportedMethod
  | _ => return m.header + 30 + field header 26 2 + field header 28 2

def unpack (limit : Nat) (method : Method) (packed : ByteArray) : Except DataError ByteArray :=
  match method with
  | .deflated =>
    match inflate limit packed.data.toList with
    | .ok content => .ok content
    | .error .corrupt => .error .corrupt
    | .error .incomplete => .error .incomplete
  | _ => .ok packed

/-- The content of a member whose data is at `start`, if that has at most `limit` bytes. Data ends
with the file at the latest. -/
def Member.content (m : Member) (file : ByteArray) (start limit : Nat) :
    Except DataError ByteArray := do
  let packed := file.extract start (min (start + m.packedSize) file.size)
  let content ← unpack limit m.method packed
  if limit < content.size then throw (.tooLong limit)
  if (Crc32.checksum content).toNat ≠ m.checksum then throw .badChecksum
  return content

end ClasspathSymbols.Archive
