import ClasspathSymbols.Path

/-!
# Symbols

A symbol is named as in source: `java.util.Map.Entry`. Only types and packages are indexed.
-/
namespace ClasspathSymbols

inductive SymbolKind where
  | type | package | element
  deriving DecidableEq, Repr

structure Symbol where
  name : String
  kind : SymbolKind
  deriving DecidableEq, Repr

inductive Place where
  | source (file : Path)
  | archive (archive : Path) (entry : String)
  | directory (file : Path)
  deriving DecidableEq, Repr

end ClasspathSymbols
