import ClasspathSymbols.Index

/-!
# Queries

Every question to an index as a value, and its answer.
-/
namespace ClasspathSymbols

inductive Query where
  | type (name : String)
  | package (name : String)
  | binaryName (name : String)
  | isDeprecated (symbol : Symbol)
  | location (symbol : Symbol)
  | simpleName (name : String)
  | packages (start : String)
  deriving DecidableEq, Repr

inductive QueryAnswer where
  | symbol (s : Option Symbol)
  | binaryName (name : Option String)
  | deprecated (b : Bool)
  | location (place : Option Place)
  | names (names : List String)
  deriving DecidableEq, Repr

def Index.answer (ix : Index) : Query → QueryAnswer
  | .type name => .symbol (ix.findType name)
  | .package name => .symbol (ix.findPackage name)
  | .binaryName name => .binaryName (ix.binaryName name)
  | .isDeprecated s => .deprecated (ix.isDeprecated s)
  | .location s => .location (ix.place? s)
  | .simpleName name => .names (ix.withSimpleName name)
  | .packages start => .names (ix.packagesIn start)

end ClasspathSymbols
