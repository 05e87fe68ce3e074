import ClasspathSymbols.Text.Blank

/-!
# Class names on the command line

A class name may be copied from an import: the words in front, the semicolons behind and all blanks
are taken away.
-/
namespace ClasspathSymbols.ClassName

def importWord : List Char := "import ".toList

def staticWord : List Char := "static ".toList

/-- What follows the word, without blanks around it; all of a text that does not begin so. -/
def dropWord (word s : List Char) : List Char :=
  if word.isPrefixOf s then Text.trim (s.drop word.length) else s

def dropSemicolons (s : List Char) : List Char :=
  if s.getLast? = some ';' then Text.trim (s.reverse.dropWhile (· = ';')).reverse else s

def normalizeChars (s : List Char) : List Char :=
  (dropSemicolons (dropWord staticWord (dropWord importWord (Text.trim s)))).filter
    (!Text.isBlank ·)

def normalize (raw : String) : String := String.ofList (normalizeChars raw.toList)

end ClasspathSymbols.ClassName
