/-!
# Binary names

The binary name of a type has its package in front, parted by dots, and a dollar sign between
nested types: `a.b.Outer$Inner`. In source a dot stands for each dollar sign. Class files are
named after the binary name.
-/
namespace ClasspathSymbols.BinaryName

def nestingSign : Char := '$'

/-- `a.b.Outer$Inner` is written `a.b.Outer.Inner` in source. -/
def sourceName (name : String) : String :=
  String.ofList (name.toList.map fun c => if c = nestingSign then '.' else c)

/-- What stands before the last dot, and what after it; all of a name without a dot comes after. -/
def splitLast (name : List Char) : List Char × List Char :=
  ((name.reverse.dropWhile (· ≠ '.')).tail.reverse, (name.reverse.takeWhile (· ≠ '.')).reverse)

theorem splitLast_shorter {name : List Char} (h : name ≠ []) :
    (splitLast name).1.length < name.length := by
  have hd := (List.dropWhile_sublist (l := name.reverse) (fun c => decide (c ≠ '.'))).length_le
  have hn := List.length_pos_iff.2 h
  simp only [splitLast, List.length_reverse, List.length_tail] at hd ⊢
  omega

def packageOf (name : String) : String := String.ofList (splitLast name.toList).1

def lastPart (name : String) : String := String.ofList (splitLast name.toList).2

def classEnding : List Char := ".class".toList

def descriptors : List (List Char) := ["module-info".toList, "package-info".toList]

/-- Classes nested in a method have no name, or one that starts with a digit, after the sign. -/
def isAddressable (simpleName : List Char) : Bool :=
  (simpleName.splitOn nestingSign).tail.all fun part => match part with
    | [] => false
    | c :: _ => !c.isDigit

def dotted (stem : List Char) : List Char :=
  stem.map fun c => if c = '/' ∨ c = '\\' then '.' else c

/-- The binary name of the class in an entry of an archive or a directory; none for other entries
and for classes that no source can name. -/
def ofEntry? (entry : String) : Option String :=
  if classEnding.isSuffixOf entry.toList then
    let stem := entry.toList.take (entry.toList.length - classEnding.length)
    let simpleName := (stem.splitOn '/').getLastD []
    if descriptors.contains simpleName ∨ !isAddressable simpleName then none
    else some (String.ofList (dotted stem))
  else none

end ClasspathSymbols.BinaryName
