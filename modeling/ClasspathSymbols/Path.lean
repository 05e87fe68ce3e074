/-!
# Paths

A path is kept as it was written; what it names is the list of its components. Empty parts and
inner dots do not count, a leading dot does, and a double dot is never resolved. Paths are
ordered by their components.
-/
namespace ClasspathSymbols

structure Path where
  text : String
  deriving DecidableEq, Repr, Inhabited

namespace Path

inductive Component where
  | root | here | up | name (text : String)
  deriving DecidableEq, Repr

def Component.rank : Component → List String
  | .root => [""]
  | .here => ["", ""]
  | .up => ["", "", ""]
  | .name text => ["", "", "", text]

instance : LT Component := ⟨fun a b => a.rank < b.rank⟩

instance (a b : Component) : Decidable (a < b) :=
  inferInstanceAs (Decidable (a.rank < b.rank))

def segments (p : Path) : List (List Char) := p.text.toList.splitOn '/'

def IsAbsolute (p : Path) : Prop := p.text.toList.head? = some '/'

instance (p : Path) : Decidable p.IsAbsolute :=
  inferInstanceAs (Decidable (_ = _))

def Component.ofSegment (segment : List Char) : Option Component :=
  if segment = [] ∨ segment = ['.'] then none
  else if segment = ['.', '.'] then some .up
  else some (.name (String.ofList segment))

def components (p : Path) : List Component :=
  let parts := p.segments.filterMap Component.ofSegment
  if p.IsAbsolute then .root :: parts
  else if p.segments.head? = some ['.'] then .here :: parts
  else parts

def Same (p q : Path) : Prop := p.components = q.components

instance (p q : Path) : Decidable (Same p q) :=
  inferInstanceAs (Decidable (_ = _))

def le (p q : Path) : Bool := decide (p.components ≤ q.components)

/-- `rest` below `dir`: with one slash between them, or `rest` alone where it is absolute. -/
def join (dir : Path) (rest : String) : Path :=
  if rest.toList.head? = some '/' then ⟨rest⟩
  else if dir.text.toList.getLast? = none ∨ dir.text.toList.getLast? = some '/' then
    ⟨dir.text ++ rest⟩
  else ⟨dir.text ++ "/" ++ rest⟩

/-- What follows the last dot of a file name; a dot in front starts no extension. -/
def extensionOf (name : List Char) : Option (List Char) :=
  match name.reverse.dropWhile (· ≠ '.') with
  | [] | [_] => none
  | _ => some (name.reverse.takeWhile (· ≠ '.')).reverse

def extension? (p : Path) : Option String :=
  match p.components.getLast? with
  | some (.name text) => (extensionOf text.toList).map String.ofList
  | _ => none

def hasExtension (extensions : List String) (p : Path) : Bool :=
  match p.extension? with
  | some extension => extensions.contains extension
  | none => false

def isArchive (p : Path) : Bool :=
  match p.extension? with
  | some extension => ["jar", "zip"].contains (extension.map Char.toLower)
  | none => false

/-- The paths that neither `seen` nor an earlier place of the list spells. -/
def distinctFrom (seen : List Path) : List Path → List Path
  | [] => []
  | p :: rest =>
    if seen.any fun q => Same p q then distinctFrom seen rest
    else p :: distinctFrom (p :: seen) rest

def distinct (paths : List Path) : List Path := distinctFrom [] paths

end Path

end ClasspathSymbols
