import ClasspathSymbols.Text.Hidden

/-!
# Quoted text

A text between double quotes, for messages. Quotes and backslashes get a backslash, the usual
controls their letter, and other hidden characters their code point in hexadecimal.
-/
namespace ClasspathSymbols.Text.Quoted

def hex (n : Nat) : List Char := Nat.toDigits 16 n

def encodeChar (c : Char) : List Char :=
  match c with
  | '\x00' => ['\\', '0']
  | '\t' => ['\\', 't']
  | '\n' => ['\\', 'n']
  | '\r' => ['\\', 'r']
  | '"' => ['\\', '"']
  | '\\' => ['\\', '\\']
  | c => if isHidden c then ['\\', 'u', '\x7b'] ++ hex c.toNat ++ ['\x7d'] else [c]

def encode (s : String) : String :=
  String.ofList ('"' :: s.toList.flatMap encodeChar ++ ['"'])

end ClasspathSymbols.Text.Quoted
