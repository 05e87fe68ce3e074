import ClasspathSymbols.ParsedFiles
import ClasspathSymbols.Text.Blank

/-!
# Sessions with parsed files

A row of steps on files, buffers and parsed files, with a parser that splits a text into words.
After each step it is told how many files the steps so far have named.
-/
namespace ClasspathSymbols

/-- Trees are lists of words; a text with a zero character is refused, and one without words has no
tree. -/
def parseWords : GuestParser (List String) := fun source =>
  if source.text.toList.contains '\x00' then .error (.rejected "NUL byte")
  else
    match Text.words source.text.toList with
    | [] => .error .noRoot
    | words => .ok (words.map String.ofList)

inductive ParseStep where
  | write (file : Path) (content : ByteArray)
  | delete (file : Path)
  | setBuffer (f : GuestFile) (text : String)
  | closeBuffer (f : GuestFile)
  | read (f : GuestFile)
  | get (f : GuestFile)
  | cached (f : GuestFile)
  | evict (f : GuestFile)
  | clear
  | parse (f : GuestFile) (text : String)
  | detached (text : String)

def ParseStep.file? : ParseStep → Option GuestFile
  | .setBuffer f _ | .closeBuffer f | .read f | .get f | .cached f | .evict f | .parse f _ => some f
  | _ => none

inductive ParseAnswer where
  | done
  | flag (b : Bool)
  | text (s : String)
  | kept (t : Option (ParsedTree (List String)))
  | fresh (t : ParsedTree (List String))
  | failure (e : SourceError)

structure ParseSession where
  overlay : Overlay Files
  parsed : ParsedFiles (List String)
  known : List GuestFile.Key

namespace ParseSession

def start (fs : Files) : ParseSession := ⟨⟨fs, .empty⟩, .empty, []⟩

def withFiles (s : ParseSession) (fs : Files) : ParseSession :=
  { s with overlay := { s.overlay with base := fs } }

def name (s : ParseSession) (f : Option GuestFile) : ParseSession :=
  match f with
  | none => s
  | some f => if s.known.contains f.key then s else { s with known := f.key :: s.known }

def freshAnswer : Except ParseError (ParsedTree (List String)) → ParseAnswer
  | .ok t => .fresh t
  | .error e => .failure (.parse e)

def step (s : ParseSession) : ParseStep → ParseAnswer × ParseSession
  | .write file content =>
    (.done, s.withFiles (s.overlay.base.write (s.overlay.base.locate file) content))
  | .delete file =>
    match s.overlay.base.resolve file with
    | .ok l => (.flag true, s.withFiles (s.overlay.base.remove l))
    | .error _ => (.flag false, s)
  | .setBuffer f text => (.done, { s with overlay := s.overlay.setBuffer f text })
  | .closeBuffer f =>
    let (b, overlay) := s.overlay.closeBuffer f
    (.flag b, { s with overlay })
  | .read f =>
    match s.overlay.readText f with
    | .ok text => (.text text, s)
    | .error e => (.failure (.content e), s)
  | .get f =>
    match s.parsed.get parseWords s.overlay f with
    | (.ok t, parsed) => (.kept (some t), { s with parsed })
    | (.error e, parsed) => (.failure e, { s with parsed })
  | .cached f => (.kept (s.parsed.cached f), s)
  | .evict f =>
    let (b, parsed) := s.parsed.evict f
    (.flag b, { s with parsed })
  | .clear => (.done, { s with parsed := s.parsed.clear })
  | .parse f text =>
    let (r, parsed) := s.parsed.parse parseWords f text
    (freshAnswer r, { s with parsed })
  | .detached text =>
    let (r, parsed) := s.parsed.parseDetached parseWords text
    (freshAnswer r, { s with parsed })

def run (s : ParseSession) : List ParseStep → List (ParseAnswer × ParseSession)
  | [] => []
  | p :: rest =>
    let (a, s) := (s.name p.file?).step p
    (a, s) :: s.run rest

end ParseSession

end ClasspathSymbols
