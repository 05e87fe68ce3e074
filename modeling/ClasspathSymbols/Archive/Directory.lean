import ClasspathSymbols.Archive.CodePage437
import ClasspathSymbols.Text.Utf8

/-!
# The directory of an archive

An archive ends in a record that says where its directory is. The record is looked for from the
end of the file backwards, so that other bytes may stand before and after the archive; offsets
count from where the archive then has to begin. The directory has one header a member. Numbers
are little-endian; a field of an older header that is all ones may stand for an eight-byte number
elsewhere.
-/
namespace ClasspathSymbols

inductive ArchiveError where
  | tooShort
  | noEndRecord
  | noWideEndRecord
  | noRoomForWideEndRecord
  | badDirectoryPlace
  | badDirectoryHeader
  | badLocalHeader
  | headerOutOfRange
  | endsEarly
  | severalDisks
  | unsupportedMethod
  | encrypted
  | cipherUndescribed
  | cipherFieldLength
  | cipherVendor
  | cipherVendorVersion
  | cipherStrength
  deriving DecidableEq, Repr

inductive ArchiveError.Nature where
  | io | invalid | unsupported
  deriving DecidableEq, Repr

namespace ArchiveError

def nature : ArchiveError → Nature
  | .endsEarly => .io
  | .severalDisks | .unsupportedMethod | .encrypted | .cipherFieldLength => .unsupported
  | _ => .invalid

def detail : ArchiveError → String
  | .tooShort => "Invalid zip header"
  | .noEndRecord => "Could not find central directory end"
  | .noWideEndRecord => "Could not find ZIP64 central directory end"
  | .noRoomForWideEndRecord => "File cannot contain ZIP64 central directory end"
  | .badDirectoryPlace => "Invalid central directory size or offset"
  | .badDirectoryHeader => "Invalid Central Directory header"
  | .badLocalHeader => "Invalid local file header"
  | .headerOutOfRange => "Archive header is too large"
  | .endsEarly => "failed to fill whole buffer"
  | .severalDisks => "Support for multi-disk files is not implemented"
  | .unsupportedMethod => "Compression method not supported"
  | .encrypted => "Password required to decrypt file"
  | .cipherUndescribed => "AES encryption without AES extra data field"
  | .cipherFieldLength => "AES extra data field has an unsupported length"
  | .cipherVendor => "Invalid AES vendor"
  | .cipherVendorVersion => "Invalid AES vendor version"
  | .cipherStrength => "Invalid AES encryption strength"

def message (e : ArchiveError) : String :=
  match e.nature with
  | .io => e.detail
  | .invalid => "invalid Zip archive: " ++ e.detail
  | .unsupported => "unsupported Zip archive: " ++ e.detail

end ArchiveError

namespace Archive

def littleEndian (bytes : List UInt8) : Nat := bytes.foldr (fun b n => b.toNat + 256 * n) 0

def bytesAt (file : ByteArray) (start length : Nat) : Except ArchiveError (List UInt8) :=
  if start + length ≤ file.size then .ok (file.extract start (start + length)).data.toList
  else .error .endsEarly

theorem bytesAt_eq (file : ByteArray) (start length : Nat) :
    bytesAt file start length =
      if start + length ≤ file.size then .ok ((file.data.toList.drop start).take length)
      else .error .endsEarly := by
  rw [bytesAt, ByteArray.data_extract, Array.toList_extract, List.extract_eq_take_drop,
    Nat.add_sub_cancel_left]

def field (header : List UInt8) (start length : Nat) : Nat :=
  littleEndian ((header.drop start).take length)

def hasSignature (file : ByteArray) (signature start : Nat) : Bool :=
  match bytesAt file start 4 with
  | .ok bytes => littleEndian bytes == signature
  | .error _ => false

def endSignature : Nat := 0x06054B50

def wideEndSignature : Nat := 0x06064B50

def locatorSignature : Nat := 0x07064B50

def directorySignature : Nat := 0x02014B50

def localSignature : Nat := 0x04034B50

def endLength : Nat := 22

def locatorLength : Nat := 20

def wideEndLength : Nat := 56

def maxComment : Nat := 0xFFFF

structure EndRecord where
  start : Nat
  disk : Nat
  directoryDisk : Nat
  membersHere : Nat
  members : Nat
  directorySize : Nat
  directoryOffset : Nat
  commentLength : Nat
  deriving Repr

def EndRecord.isNarrow (r : EndRecord) : Bool :=
  [r.disk, r.directoryDisk, r.membersHere, r.members].contains 0xFFFF ||
    [r.directorySize, r.directoryOffset].contains 0xFFFFFFFF

/-- The last place where an end record can begin and does. -/
def endStart? (file : ByteArray) : Option Nat :=
  let last := file.size - endLength
  ((List.range (min last maxComment + 1)).find? fun k =>
    hasSignature file endSignature (last - k)).map (last - ·)

def readEnd (file : ByteArray) : Except ArchiveError EndRecord := do
  if file.size < endLength then throw .tooShort
  match endStart? file with
  | none => throw .noEndRecord
  | some start =>
    let record ← bytesAt file start endLength
    let commentLength := field record 20 2
    let _ ← bytesAt file (start + endLength) commentLength
    return {
      start, commentLength
      disk := field record 4 2
      directoryDisk := field record 6 2
      membersHere := field record 8 2
      members := field record 10 2
      directorySize := field record 12 4
      directoryOffset := field record 16 4 }

structure DirectoryPlace where
  origin : Nat
  directory : Nat
  members : Nat
  deriving DecidableEq, Repr

def EndRecord.directoryPlace (r : EndRecord) : Except ArchiveError DirectoryPlace :=
  if r.directorySize + r.directoryOffset ≤ r.start then
    let origin := r.start - r.directorySize - r.directoryOffset
    .ok ⟨origin, r.directoryOffset + origin, r.membersHere⟩
  else .error .badDirectoryPlace

def wordSize : Nat := 1 <<< 64

def EndRecord.wideDirectoryPlace (r : EndRecord) (file : ByteArray) (locator : List UInt8) :
    Except ArchiveError DirectoryPlace := do
  if !r.isNarrow ∧ r.disk ≠ field locator 4 4 then throw .severalDisks
  if r.start < wideEndLength + 4 then throw .noRoomForWideEndRecord
  let nominal := field locator 8 8
  let last := r.start - (wideEndLength + 4)
  match (List.range (last + 1 - nominal)).find? fun k =>
      hasSignature file wideEndSignature (nominal + k) with
  | none => throw .noWideEndRecord
  | some origin =>
    let record ← bytesAt file (nominal + origin) wideEndLength
    if field record 16 4 ≠ field record 20 4 then throw .severalDisks
    if wordSize ≤ field record 48 8 + origin then throw .badDirectoryPlace
    return ⟨origin, field record 48 8 + origin, field record 32 8⟩

def locator? (file : ByteArray) (r : EndRecord) : Option (List UInt8) :=
  let back := locatorLength + endLength + r.commentLength
  if back ≤ file.size ∧ hasSignature file locatorSignature (file.size - back) then
    (bytesAt file (file.size - back) locatorLength).toOption
  else none

def directoryPlace (file : ByteArray) : Except ArchiveError DirectoryPlace := do
  let r ← readEnd file
  if !r.isNarrow ∧ r.disk ≠ r.directoryDisk then throw .severalDisks
  match locator? file r with
  | none => r.directoryPlace
  | some locator => r.wideDirectoryPlace file locator

end Archive

end ClasspathSymbols
