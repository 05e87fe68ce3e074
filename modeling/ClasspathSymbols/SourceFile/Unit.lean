import ClasspathSymbols.BinaryName
import ClasspathSymbols.SourceFile.Declaration

/-!
# What a source file declares

The types that a source file declares for others, with their binary names: its own types, and the
types that are members of those at any depth, those behind the constants of an enumeration among
them. The package of a type is the one declared last before it.
-/
namespace ClasspathSymbols.SourceFile

structure DeclaredType where
  binaryName : String
  deprecated : Bool
  deriving DecidableEq, Repr

structure Declarations where
  package : String
  types : List DeclaredType
  deriving DecidableEq, Repr

def deprecatedNames : List String := ["Deprecated", "java.lang.Deprecated"]

def isDeprecated (annotations : List String) : Bool :=
  annotations.any fun name => deprecatedNames.contains name

mutual

/-- The types of a node, their names put after `outer`. The level behind the constants counts only
directly in the body of a type. -/
def Node.types (inBody : Bool) (outer : String) : Node → List DeclaredType
  | .type _ annotations name members =>
    ⟨outer ++ name, isDeprecated annotations⟩ ::
      typesOf true (outer ++ name ++ String.singleton BinaryName.nestingSign) members
  | .behindConstants members => if inBody then typesOf false outer members else []
  | .package _ | .other _ => []

def typesOf (inBody : Bool) (outer : String) : List Node → List DeclaredType
  | [] => []
  | n :: rest => n.types inBody outer ++ typesOf inBody outer rest

end

def inPackage (package : String) : String := if package = "" then "" else package ++ "."

def Declarations.add (d : Declarations) (n : Node) : Declarations :=
  match n with
  | .package name => { d with package := name }
  | n => { d with types := d.types ++ n.types false (inPackage d.package) }

def Declarations.ofNodes (nodes : List Node) : Declarations :=
  nodes.foldl Declarations.add ⟨"", []⟩

/-- What a source declares; nothing at all where it is blank. -/
def declarations? (source : String) : Option Declarations :=
  if Text.trim source.toList = [] then none else some (.ofNodes (nodesOfText source))

end ClasspathSymbols.SourceFile
