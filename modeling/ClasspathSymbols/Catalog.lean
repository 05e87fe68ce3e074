import ClasspathSymbols.Archive.Member
import ClasspathSymbols.BinaryName
import ClasspathSymbols.ClassFile.Verdict
import ClasspathSymbols.Files.Walk

/-!
# Catalogs

The classes of an archive or of a class directory. A file that is no readable class file counts
as a class that is not deprecated; a class of an archive that cannot be unpacked is an error.
-/
namespace ClasspathSymbols

inductive IoProblem where
  | file (e : FileError)
  | data (e : Archive.DataError)
  deriving DecidableEq, Repr

inductive BuildError where
  | io (path : Path) (problem : IoProblem)
  | archive (path : Path) (problem : ArchiveError)
  deriving DecidableEq, Repr

def Archive.DataError.message : Archive.DataError → String
  | .corrupt => "corrupt deflate stream"
  | .incomplete => "incomplete deflate stream"
  | .badChecksum => "Invalid checksum"
  | .tooLong limit => s!"class file larger than {limit} bytes"

def IoProblem.message : IoProblem → String
  | .file e => e.message
  | .data e => e.message

def BuildError.message : BuildError → String
  | .io path problem => s!"io error at {path.text}: {problem.message}"
  | .archive path problem => s!"unreadable archive {path.text}: {problem.message}"

structure ClassEntry where
  binaryName : String
  entry : String
  deprecated : Bool
  deriving DecidableEq, Repr

namespace Catalog

def maxClassSize : Nat := 16 <<< 20

def deprecatedBytes (content : ByteArray) : Bool :=
  match ClassFile.isDeprecated content.data.toList with
  | .ok deprecated => deprecated
  | .error _ => false

/-- The class in a member, if it is one; other members only need a sound header. -/
def ofMember (archive : Path) (file : ByteArray) (m : Archive.Member) :
    Except BuildError (Option ClassEntry) :=
  match m.dataStart file with
  | .error e => .error (.archive archive e)
  | .ok start =>
    match BinaryName.ofEntry? m.name with
    | none => .ok none
    | some binaryName =>
      match m.content file start maxClassSize with
      | .error e => .error (.io (archive.join m.name) (.data e))
      | .ok content => .ok (some ⟨binaryName, m.name, deprecatedBytes content⟩)

def ofArchive (fs : Files) (archive : Path) : Except BuildError (List ClassEntry) := do
  let file ← (fs.map archive).mapError fun e => .io archive (.file e)
  let members ← (Archive.members file).mapError (.archive archive)
  return (← members.mapM (ofMember archive file)).filterMap id

def ofFound (fs : Files) (f : Found) : Except BuildError (Option ClassEntry) :=
  let entry := "/".intercalate f.below
  match BinaryName.ofEntry? entry with
  | none => .ok none
  | some binaryName =>
    match fs.read f.path with
    | .error e => .error (.io f.path (.file e))
    | .ok content => .ok (some ⟨binaryName, entry, deprecatedBytes content⟩)

def isClassFile (p : Path) : Bool := p.extension? == some "class"

def ofDirectory (fs : Files) (root : Path) : Except BuildError (List ClassEntry) := do
  return (← (fs.scan root isClassFile).mapM (ofFound fs)).filterMap id

end Catalog

end ClasspathSymbols
