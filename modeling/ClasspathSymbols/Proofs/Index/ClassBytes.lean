import ClasspathSymbols.Proofs.Catalog.Agreement
import ClasspathSymbols.Proofs.ClassFile.Indices
import ClasspathSymbols.Proofs.Files.Difference
import ClasspathSymbols.Proofs.Index.Twins

/-! # The bytes of a class

Of a class file an index takes the name from where the file is, and from its bytes only whether the
class is deprecated; bytes that cannot be read say that it is not. So whatever the bytes are, they
cannot make a build fail, and they are seen in no answer but the flag of that very class, where it
has won its name. -/
namespace ClasspathSymbols

open Catalog

/-- Where a class is: in a file of its own, or in an archive between other members. -/
inductive ClassSpot where
  | file (l : Location)
  | member (archive : Location) (before : List (String × ByteArray)) (entry : String)
      (after : List (String × ByteArray))

namespace ClassSpot

/-- The place is that of the class. Of members with one name the first is the one that counts. -/
def IsAt (fs : Files) : ClassSpot → Place → Prop
  | .file l, .directory p => fs.resolve p = .ok l
  | .member l before entry _, .archive root name =>
    fs.resolve root = .ok l ∧ name = entry ∧ entry ∉ before.map Prod.fst
  | _, _ => False

end ClassSpot

def ClassSpot.Twins (spot : ClassSpot) (fs : Files) (x y : ByteArray) : Index → Index → Prop :=
  Index.Twins (SameButFlag (spot.IsAt fs) x y)

variable {fs gs : Files} {l : Location} {x y : ByteArray} {flagged : Place → Prop}

namespace Item

variable {a b : ByteArray}

variable {root : Path} {entry : String} {before after : List (String × ByteArray)}

section Member

variable {ix jx : Index} {os : List (Option ClassEntry)}

end Member

end Item

namespace ClassSpot

variable {ix jx : Index} {c : Classpath} {i : Item}

end ClassSpot

namespace Index

end Index

end ClasspathSymbols
