import ClasspathSymbols.Files
import ClasspathSymbols.Files.Glob
import ClasspathSymbols.Text.Blank
import ClasspathSymbols.Text.Utf8

/-!
# Ignore files

A file named `.ignore` holds one rule a line for what lies below its directory. The last rule of a
file that matches decides, and the file of a deeper directory before that of a shallower one. A file
whose path is too long is not found, and its rules do not count.
-/
namespace ClasspathSymbols.Ignore

structure Rule where
  patterns : List Glob.Pattern
  /-- Takes back what earlier rules drop. -/
  keeps : Bool
  directoriesOnly : Bool
  deriving DecidableEq, Repr

def startsWith (start s : List Char) : Bool := start.isPrefixOf s

def endsWith (ending s : List Char) : Bool := ending.isSuffixOf s

/-- A rule without an inner slash may match at any depth. -/
def anchor (fromTop : Bool) (glob : List Char) : List Char :=
  let glob := if fromTop || glob.contains '/' || glob == ['*', '*'] then glob
    else ['*', '*', '/'] ++ glob
  if endsWith ['/', '*', '*'] glob then glob ++ ['/', '*'] else glob

def Rule.ofLine? (line : List Char) : Option Rule :=
  if startsWith ['#'] line then none
  else
    let line := if endsWith ['\\', ' '] line then line else Text.trimEnd line
    if line = [] then none
    else
      let escaped := startsWith ['\\', '!'] line || startsWith ['\\', '#'] line
      let keeps := !escaped && startsWith ['!'] line
      let glob := if escaped || keeps then line.tail else line
      let fromTop := !escaped && startsWith ['/'] glob
      let glob := if fromTop then glob.tail else glob
      let directoriesOnly := endsWith ['/'] glob
      let glob := if directoriesOnly then glob.dropLast else glob
      let glob := if directoriesOnly && endsWith ['\\'] glob then glob.dropLast else glob
      (Glob.patterns? (anchor fromTop glob)).map fun patterns => ⟨patterns, keeps, directoriesOnly⟩

def dropReturn (line : List UInt8) : List UInt8 :=
  if line.getLast? = some 0x0D then line.dropLast else line

/-- The lines of a file up to the first that is no text; a byte order mark in front is dropped. -/
def linesOf (content : List UInt8) : List (List Char) :=
  let lines := (content.splitOn 0x0A).map fun line => Text.Utf8.decode? (dropReturn line)
  let lines := lines.takeWhile Option.isSome
  match lines.filterMap id with
  | [] => []
  | first :: rest => first.dropWhile (· = '\uFEFF') :: rest

def rulesOf (content : List UInt8) : List Rule := (linesOf content).filterMap Rule.ofLine?

def Rule.accepts (r : Rule) (name : List UInt8) (isDirectory : Bool) : Bool :=
  (!r.directoriesOnly || isDirectory) && r.patterns.any fun p => p.accepts name

def verdict (rules : List Rule) (name : List UInt8) (isDirectory : Bool) : Option Bool :=
  (rules.reverse.find? fun r => r.accepts name isDirectory).map (·.keeps)

def rulesAt (fs : Files) (directory : Location) : List Rule :=
  match fs.entryAt (directory ++ [".ignore"]) with
  | some (.file content) => rulesOf content.data.toList
  | _ => []

def verdictAt (fs : Files) (l : Location) (isDirectory : Bool) (k : Nat) : Option Bool :=
  verdict (rulesAt fs (l.take k)) ("/".intercalate (l.drop k)).toUTF8.data.toList isDirectory

def IsFound (root : Path) (way : List String) : Prop :=
  Files.Fits (root.join ("/".intercalate (way ++ [".ignore"])))

instance (root : Path) (way : List String) : Decidable (IsFound root way) :=
  inferInstanceAs (Decidable (Files.Fits _))

/-- Whether a walk of the directory at `top`, written `root`, heeds the rules that are `k` names
down the way to something below it. The files above `top` are looked for from the root of the tree,
the others as the walk spells their paths. -/
def Heeds (root : Path) (top : Location) (way : List String) (k : Nat) : Prop :=
  if k < top.length then
    Files.Fits (Path.join ⟨"/"⟩ ("/".intercalate top)) ∧ IsFound ⟨"/"⟩ (top.take k)
  else IsFound root (way.take (k - top.length))

instance (root : Path) (top : Location) (way : List String) (k : Nat) :
    Decidable (Heeds root top way k) := inferInstanceAs (Decidable (ite _ _ _))

def drops (fs : Files) (root : Path) (top : Location) (way : List String) (isDirectory : Bool) :
    Bool :=
  let l := top ++ way
  let heeded := fun k => if Heeds root top way k then verdictAt fs l isDirectory k else none
  (List.range l.length).reverse.findSome? heeded == some false

end ClasspathSymbols.Ignore
