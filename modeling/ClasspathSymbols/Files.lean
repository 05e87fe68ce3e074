import ClasspathSymbols.Path
import ClasspathSymbols.Table

/-!
# Files

A tree of directories and files, held as the table of what stands at each location; the top
directory always exists. A path is resolved part by part, from the top or from the directory that
is worked in, so that each part but the last has to be a directory, and a slash at the end asks
for a directory too.
-/
namespace ClasspathSymbols

/-- The names on the way down from the top. -/
abbrev Location := List String

inductive Entry where
  | directory
  | file (content : ByteArray)

inductive FileError where
  | notFound | notDirectory | isDirectory | noDevice | nameTooLong | nulInName
  deriving DecidableEq, Repr

def FileError.message : FileError → String
  | .notFound => "No such file or directory (os error 2)"
  | .notDirectory => "Not a directory (os error 20)"
  | .isDirectory => "Is a directory (os error 21)"
  | .noDevice => "No such device (os error 19)"
  | .nameTooLong => "File name too long (os error 36)"
  | .nulInName => "file name contained an unexpected NUL byte"

structure Files where
  table : Table Location Entry
  /-- The directory that relative paths start from. -/
  here : Location

namespace Files

instance : Inhabited Files := ⟨⟨.empty, []⟩⟩

def entryAt (fs : Files) (l : Location) : Option Entry :=
  if l = [] then some .directory else fs.table.get? l

def isDirectoryAt (fs : Files) (l : Location) : Bool :=
  match fs.entryAt l with
  | some .directory => true
  | _ => false

def insert (fs : Files) (l : Location) (e : Entry) : Files :=
  { fs with table := fs.table.insert l e }

def downTo (l : Location) : List Location := (List.range (l.length + 1)).map l.take

def makeDirectory (fs : Files) (l : Location) : Files :=
  (downTo l).foldl (fun fs d => if fs.entryAt d = none then fs.insert d .directory else fs) fs

def emptyAt (here : Location) : Files := (Files.mk .empty here).makeDirectory here

def write (fs : Files) (l : Location) (content : ByteArray) : Files :=
  (fs.makeDirectory l.dropLast).insert l (.file content)

def remove (fs : Files) (l : Location) : Files :=
  { fs with table := fs.table.filterKeys fun k => !l.isPrefixOf k }

def maxNameBytes : Nat := 255

def maxPathBytes : Nat := 4095

def Fits (p : Path) : Prop := p.text.utf8ByteSize ≤ maxPathBytes

instance (p : Path) : Decidable (Fits p) := inferInstanceAs (Decidable (_ ≤ _))

def descend (fs : Files) (l : Location) (segment : List Char) : Except FileError Location :=
  match fs.entryAt l with
  | some .directory =>
    match Path.Component.ofSegment segment with
    | some (.name text) =>
      if text.utf8ByteSize > maxNameBytes then .error .nameTooLong
      else if fs.entryAt (l ++ [text]) = none then .error .notFound
      else .ok (l ++ [text])
    | some .up => .ok l.dropLast
    | _ => .ok l
  | some (.file _) => .error .notDirectory
  | none => .error .notFound

def startOf (fs : Files) (p : Path) : Location := if p.IsAbsolute then [] else fs.here

def resolve (fs : Files) (p : Path) : Except FileError Location :=
  if p.text.toList.contains '\x00' then .error .nulInName
  else if p.text.utf8ByteSize > maxPathBytes then .error .nameTooLong
  else if p.text = "" then .error .notFound
  else p.segments.foldlM fs.descend (fs.startOf p)

def entry? (fs : Files) (p : Path) : Option Entry :=
  match fs.resolve p with
  | .ok l => fs.entryAt l
  | .error _ => none

def isDirectory (fs : Files) (p : Path) : Bool :=
  match fs.entry? p with
  | some .directory => true
  | _ => false

def isFile (fs : Files) (p : Path) : Bool :=
  match fs.entry? p with
  | some (.file _) => true
  | _ => false

/-- The content of a file; `onDirectory` is what is wrong with a directory in its place. -/
def content (fs : Files) (p : Path) (onDirectory : FileError) : Except FileError ByteArray := do
  match fs.entryAt (← fs.resolve p) with
  | some (.file content) => .ok content
  | some .directory => .error onDirectory
  | none => .error .notFound

def read (fs : Files) (p : Path) : Except FileError ByteArray := fs.content p .isDirectory

/-- Maps a file into memory, where a directory can be opened but not mapped. -/
def map (fs : Files) (p : Path) : Except FileError ByteArray := fs.content p .noDevice

/-- The location that a path spells, whether or not anything stands there. -/
def locate (fs : Files) (p : Path) : Location :=
  p.components.foldl (fun l c => match c with
    | .name text => l ++ [text]
    | .up => l.dropLast
    | _ => l) (fs.startOf p)

end Files

end ClasspathSymbols
