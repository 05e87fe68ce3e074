import ClasspathSymbols.Catalog
import ClasspathSymbols.Classpath
import ClasspathSymbols.SourceFile.Unit
import ClasspathSymbols.Symbol
import Std.Data.TreeMap
import Std.Data.TreeSet

/-!
# The index of a class path

All declarations of a class path stand in one row: those of the source roots first, then those of
the search path, in the order of the roots. The first declaration of a source name wins. Besides
the winners by source name, an index holds them by binary name and by simple name, and their
packages with the packages around those.
-/
namespace ClasspathSymbols

structure Declaration where
  binaryName : String
  place : Place
  deprecated : Bool
  deriving DecidableEq, Repr

def Declaration.sourceName (d : Declaration) : String := BinaryName.sourceName d.binaryName

namespace Declaration

def isSourceFile (p : Path) : Bool := p.extension? == some "java"

/-- The declarations of a source file; there are none in a file that is not UTF-8. -/
def ofSource (fs : Files) (file : Path) : Except BuildError (List Declaration) := do
  let content ← (fs.read file).mapError fun e => .io file (.file e)
  match Text.Utf8.decode? content.data.toList with
  | none => return []
  | some text =>
    match SourceFile.declarations? (String.ofList text) with
    | none => return []
    | some d => return d.types.map fun t => ⟨t.binaryName, .source file, t.deprecated⟩

def sourceFiles (fs : Files) (roots : List Path) : List Path :=
  (roots.filter fs.isDirectory).flatMap fun root =>
    (fs.scan root isSourceFile).map (·.path)

def isSearched (fs : Files) (root : Path) : Bool :=
  fs.isDirectory root || (fs.isFile root && root.isArchive)

def ofRoot (fs : Files) (root : Path) : Except BuildError (List Declaration) := do
  if fs.isDirectory root then
    return (← Catalog.ofDirectory fs root).map fun c =>
      ⟨c.binaryName, .directory (root.join c.entry), c.deprecated⟩
  else
    return (← Catalog.ofArchive fs root).map fun c =>
      ⟨c.binaryName, .archive root c.entry, c.deprecated⟩

/-- All declarations of a class path in their order. The first root or file that cannot be read
fails. -/
def ofClasspath (fs : Files) (c : Classpath) : Except BuildError (List Declaration) := do
  let sources ← (sourceFiles fs c.source).mapM (ofSource fs)
  let classes ← (c.search.filter (isSearched fs)).mapM (ofRoot fs)
  return sources.flatten ++ classes.flatten

end Declaration

structure Index where
  /-- The winners by source name. -/
  types : Std.TreeMap String Declaration
  /-- The source names of the winners by binary name. -/
  byBinaryName : Std.TreeMap String String
  /-- The source names of the winners by simple name. -/
  bySimpleName : Std.TreeMap String (Std.TreeSet String)
  packages : Std.TreeSet String

namespace Index

def empty : Index := ⟨∅, ∅, ∅, ∅⟩

def addPackages (known : Std.TreeSet String) (package : List Char) : Std.TreeSet String :=
  if h : package = [] then known
  else if known.contains (String.ofList package) then known
  else
    have := BinaryName.splitLast_shorter h
    addPackages (known.insert (String.ofList package)) (BinaryName.splitLast package).1
termination_by package.length

def insert (ix : Index) (d : Declaration) : Index :=
  let name := d.sourceName
  if ix.types.contains name then ix
  else
    let simpleName := BinaryName.lastPart name
    { types := ix.types.insert name d
      byBinaryName := ix.byBinaryName.insert d.binaryName name
      bySimpleName := ix.bySimpleName.insert simpleName
        ((ix.bySimpleName.getD simpleName ∅).insert name)
      packages := addPackages ix.packages (BinaryName.splitLast d.binaryName.toList).1 }

def ofDeclarations (ds : List Declaration) : Index := ds.foldl insert empty

def build (fs : Files) (c : Classpath) : Except BuildError Index :=
  (Declaration.ofClasspath fs c).map ofDeclarations

def findType (ix : Index) (name : String) : Option Symbol :=
  if ix.types.contains name then some ⟨name, .type⟩ else none

def findPackage (ix : Index) (name : String) : Option Symbol :=
  if ix.packages.contains name then some ⟨name, .package⟩ else none

/-- The winner with this source name or else with this binary name. -/
def declaration? (ix : Index) (name : String) : Option Declaration :=
  ix.types[name]?.or (ix.byBinaryName[name]?.bind fun source => ix.types[source]?)

def binaryName (ix : Index) (name : String) : Option String :=
  (ix.declaration? name).map (·.binaryName)

def deprecated? (ix : Index) (s : Symbol) : Option Bool :=
  match s.kind with
  | .type => ix.types[s.name]?.map (·.deprecated)
  | .package => if ix.packages.contains s.name then some false else none
  | .element => none

def isDeprecated (ix : Index) (s : Symbol) : Bool := (ix.deprecated? s).getD false

def place? (ix : Index) (s : Symbol) : Option Place :=
  match s.kind with
  | .type => ix.types[s.name]?.map (·.place)
  | .package | .element => none

def withSimpleName (ix : Index) (simpleName : String) : List String :=
  (ix.bySimpleName.getD simpleName ∅).toList

def startsWith (start name : String) : Bool := start.toList.isPrefixOf name.toList

/-- Whether `name` is `package` or lies in it; everything lies in the package without a name. -/
def liesIn (package name : String) : Bool :=
  package = "" || name = package || startsWith (package ++ ".") name

/-- The packages that are `package` or lie in it, in order: a run of the known packages, less
those that only share its beginning. -/
def packagesIn (ix : Index) (package : String) : List String :=
  ((ix.packages.toList.dropWhile (· < package)).takeWhile (startsWith package)).filter
    (liesIn package)

def typeCount (ix : Index) : Nat := ix.types.size

def declares (ix : Index) (s : Symbol) : Bool :=
  match s.kind with
  | .package => (ix.findPackage s.name).isSome
  | .type | .element => (ix.place? s).isSome

end Index

end ClasspathSymbols
