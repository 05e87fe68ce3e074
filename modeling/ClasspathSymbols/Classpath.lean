import ClasspathSymbols.Digest.Sha256
import ClasspathSymbols.Path

/-!
# Class paths

A project has roots in three roles. Its class path is the search path, boot roots before compile
roots, and beside it the source roots; of several spellings of one root the first counts. The
fingerprint is a digest of both lists as written.
-/
namespace ClasspathSymbols

structure Roots where
  (boot source compile : List Path)
  deriving DecidableEq, Repr, Inhabited

structure Classpath where
  (search source : List Path)
  deriving DecidableEq, Repr, Inhabited

def Roots.classpath (r : Roots) : Classpath where
  search := Path.distinct (r.boot ++ r.compile)
  source := Path.distinct r.source

namespace Classpath

def IsEmpty (c : Classpath) : Prop := c.search = [] ∧ c.source = []

instance (c : Classpath) : Decidable c.IsEmpty := inferInstanceAs (Decidable (_ ∧ _))

def roleText (role : String) (paths : List Path) : String :=
  role ++ "\x00" ++ String.join (paths.map fun p => p.text ++ "\n")

def digestText (c : Classpath) : String :=
  roleText "search" c.search ++ roleText "source" c.source

def fingerprint (c : Classpath) : String := Sha256.hexDigest c.digestText.toUTF8.data.toList

end Classpath

end ClasspathSymbols
