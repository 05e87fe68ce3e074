import ClasspathSymbols.Json.Text

/-!
# Printing JSON

`compact` prints without white space; `pretty` puts each item and each field on a line of its own,
two spaces further in than what it belongs to.
-/
namespace ClasspathSymbols.Json

def separated (separator : List Char) : List (List Char) → List Char
  | [] => []
  | [x] => x
  | x :: rest => x ++ separator ++ separated separator rest

mutual

def compactChars : Json → List Char
  | .null => "null".toList
  | .bool b => (if b then "true" else "false").toList
  | .number spelling => spelling.toList
  | .string s => escape s.toList
  | .array items => '[' :: separated [','] (compactItems items) ++ [']']
  | .object fields => '{' :: separated [','] (compactFields fields) ++ ['}']

def compactItems : List Json → List (List Char)
  | [] => []
  | v :: rest => v.compactChars :: compactItems rest

def compactFields : List (String × Json) → List (List Char)
  | [] => []
  | (key, v) :: rest => (escape key.toList ++ ':' :: v.compactChars) :: compactFields rest

end

def compact (v : Json) : String := String.ofList v.compactChars

def lineStart (depth : Nat) : List Char := '\n' :: List.replicate (2 * depth) ' '

/-- The parts of an array or object on lines of their own. -/
def block (depth : Nat) (first last : Char) (parts : List (List Char)) : List Char :=
  if parts = [] then [first, last]
  else
    first :: lineStart (depth + 1) ++ separated (',' :: lineStart (depth + 1)) parts ++
      lineStart depth ++ [last]

mutual

def prettyChars (depth : Nat) : Json → List Char
  | .array items => block depth '[' ']' (prettyItems (depth + 1) items)
  | .object fields => block depth '{' '}' (prettyFields (depth + 1) fields)
  | .null => "null".toList
  | .bool b => (if b then "true" else "false").toList
  | .number spelling => spelling.toList
  | .string s => escape s.toList

def prettyItems (depth : Nat) : List Json → List (List Char)
  | [] => []
  | v :: rest => v.prettyChars depth :: prettyItems depth rest

def prettyFields (depth : Nat) : List (String × Json) → List (List Char)
  | [] => []
  | (key, v) :: rest =>
    (escape key.toList ++ ':' :: ' ' :: v.prettyChars depth) :: prettyFields depth rest

end

def pretty (v : Json) : String := String.ofList (v.prettyChars 0)

end ClasspathSymbols.Json
