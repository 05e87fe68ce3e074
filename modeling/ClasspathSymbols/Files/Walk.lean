import ClasspathSymbols.Files.Ignore

/-!
# Walks

A walk reports the files at and below a root. Hidden files count; what an ignore file drops is
not entered, but the root itself is always visited. Paths in the report start with the root as
written. A directory is opened by its path, and one whose path is too long is passed over.
-/
namespace ClasspathSymbols

/-- A file found by a walk: its path, and its names below the root. -/
structure Found where
  path : Path
  below : List String
  deriving DecidableEq, Repr

namespace Files

def IsOpened (fs : Files) (root : Path) (top : Location) (way : List String) : Prop :=
  fs.isDirectoryAt (top ++ way) ∧ Fits (root.join ("/".intercalate way))

instance (fs : Files) (root : Path) (top : Location) (way : List String) :
    Decidable (fs.IsOpened root top way) := inferInstanceAs (Decidable (_ ∧ _))

def reaches (fs : Files) (root : Path) (top : Location) (below : List String) : Bool :=
  (List.range below.length).all fun k =>
    let way := below.take (k + 1)
    let inner := k + 1 < below.length
    (!inner || fs.IsOpened root top way) && !Ignore.drops fs root top way inner

def foundAt (fs : Files) (root : Path) (top : Location) (l : Location) : Option Found :=
  let below := l.drop top.length
  if top.isPrefixOf l ∧ below ≠ [] ∧ fs.reaches root top below then
    some ⟨root.join ("/".intercalate below), below⟩
  else none

/-- The root that a walk takes for the standard input, where there is nothing to list. -/
def standardInput : Path := ⟨"-"⟩

def walk (fs : Files) (root : Path) : List Found :=
  if root.Same standardInput then [] else
  match fs.resolve root with
  | .error _ => []
  | .ok top =>
    match fs.entryAt top with
    | none => []
    | some (.file _) => [⟨root, []⟩]
    | some .directory =>
      fs.table.entries.filterMap fun (l, e) => match e with
        | .file _ => fs.foundAt root top l
        | .directory => none

def sortByPath (found : List Found) : List Found :=
  found.mergeSort fun f g => f.path.le g.path

def scan (fs : Files) (root : Path) (keep : Path → Bool) : List Found :=
  sortByPath ((fs.walk root).filter fun f => keep f.path)

end Files

end ClasspathSymbols
