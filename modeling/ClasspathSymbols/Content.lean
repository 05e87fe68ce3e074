import ClasspathSymbols.Files
import ClasspathSymbols.Text.Utf8

/-!
# Content of guest files

A guest file is known by its project and its path; spellings of one path are one file. Its content
is that of the buffer open on it, or else what is found below the buffers, in the files for one.
-/
namespace ClasspathSymbols

structure GuestFile where
  project : String
  path : Path
  deriving DecidableEq, Repr

abbrev GuestFile.Key := String × List Path.Component

def GuestFile.key (f : GuestFile) : GuestFile.Key := (f.project, f.path.components)

inductive ContentError where
  | notFound (path : Path)
  | io (path : Path) (e : FileError)
  | encoding (path : Path)
  deriving DecidableEq, Repr

def ContentError.message : ContentError → String
  | .notFound path => s!"file not found: {path.text}"
  | .io path e => s!"failed to read {path.text}: {e.message}"
  | .encoding path => s!"file is not valid UTF-8: {path.text}"

def Files.readText (fs : Files) (path : Path) : Except ContentError String :=
  match fs.read path with
  | .error .notFound => .error (.notFound path)
  | .error e => .error (.io path e)
  | .ok content =>
    match Text.Utf8.decode? content.data.toList with
    | some text => .ok (String.ofList text)
    | none => .error (.encoding path)

class ContentProvider (β : Type) where
  readText : β → GuestFile → Except ContentError String

instance : ContentProvider Files := ⟨fun fs f => fs.readText f.path⟩

/-- The open buffers over what is below them. -/
structure Overlay (β : Type) where
  base : β
  buffers : Table GuestFile.Key String

namespace Overlay

variable {β : Type}

def setBuffer (o : Overlay β) (f : GuestFile) (text : String) : Overlay β :=
  { o with buffers := o.buffers.insert f.key text }

def closeBuffer (o : Overlay β) (f : GuestFile) : Bool × Overlay β :=
  ((o.buffers.get? f.key).isSome, { o with buffers := o.buffers.erase f.key })

def readText [ContentProvider β] (o : Overlay β) (f : GuestFile) : Except ContentError String :=
  match o.buffers.get? f.key with
  | some text => .ok text
  | none => ContentProvider.readText o.base f

instance [ContentProvider β] : ContentProvider (Overlay β) := ⟨readText⟩

end Overlay

end ClasspathSymbols
