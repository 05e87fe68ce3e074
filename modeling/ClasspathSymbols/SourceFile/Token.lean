import ClasspathSymbols.Text.Blank

/-!
# Tokens of a source file

Every token of a Java source keeps the white space and the comments in front of it, so that the
tokens and what follows the last one spell the source again. Strings may hold expressions; the
string is then cut at them, and each expression stands between the brackets of a group.
-/
namespace ClasspathSymbols.SourceFile

inductive Bracket where
  | round | square | curly
  deriving DecidableEq, Repr

inductive Shape where
  | word
  | literal
  | sign
  | opening (b : Bracket)
  | closing (b : Bracket)
  deriving DecidableEq, Repr

structure Token where
  gap : List Char
  text : List Char
  shape : Shape
  deriving DecidableEq, Repr

def Token.spelling (t : Token) : List Char := t.gap ++ t.text

inductive Layout where
  | between | line | block
  deriving DecidableEq, Repr

def isLayout (c : Char) : Bool := Text.isBlank c || c = '\uFEFF'

def gapLength : Layout → List Char → Nat
  | .between, '/' :: '/' :: rest => gapLength .line rest + 2
  | .between, '/' :: '*' :: rest => gapLength .block rest + 2
  | .between, c :: rest => if isLayout c then gapLength .between rest + 1 else 0
  | .line, '\n' :: rest => gapLength .between rest + 1
  | .line, _ :: rest => gapLength .line rest + 1
  | .block, '*' :: '/' :: rest => gapLength .between rest + 2
  | .block, _ :: rest => gapLength .block rest + 1
  | _, [] => 0

inductive Quote where
  | single | triple
  deriving DecidableEq, Repr

/-- How a piece of a string ends: with its quotes, or where an expression begins. -/
inductive PieceEnd where
  | closed | expression
  deriving DecidableEq, Repr

def pieceLength : Quote → List Char → Nat × PieceEnd
  | .single, '"' :: _ => (1, .closed)
  | .triple, '"' :: '"' :: '"' :: _ => (3, .closed)
  | _, '\\' :: '{' :: _ => (2, .expression)
  | q, '\\' :: _ :: rest => let (n, e) := pieceLength q rest; (n + 2, e)
  | q, _ :: rest => let (n, e) := pieceLength q rest; (n + 1, e)
  | _, [] => (0, .closed)

def charLength : List Char → Nat
  | '\'' :: _ => 1
  | '\\' :: _ :: rest => charLength rest + 2
  | _ :: rest => charLength rest + 1
  | [] => 0

def isWordChar (c : Char) : Bool :=
  c.isAlphanum || c = '_' || c = '$' || (0x80 ≤ c.toNat && !isLayout c)

/-- Signs of more than one character, those first that others begin. -/
def longSigns : List (List Char) :=
  [">>>=", "<<=", ">>=", ">>>", "...", "->", "::", "++", "--", "&&", "||", "==", "!=", "<=", ">=",
    "+=", "-=", "*=", "/=", "&=", "|=", "^=", "%=", "<<", ">>"].map String.toList

def signLength (s : List Char) : Nat :=
  match longSigns.find? fun sign => sign.isPrefixOf s with
  | some sign => sign.length
  | none => 1

/-- The only words that are not made of word characters. -/
def joinedWords : List (List Char) := ["non-sealed".toList, "@interface".toList]

def wordLength (s : List Char) : Nat :=
  match joinedWords.find? fun w => w.isPrefixOf s && !((s.drop w.length).head?.any isWordChar) with
  | some w => w.length
  | none => (s.takeWhile isWordChar).length

def bracketShape? : Char → Option Shape
  | '(' => some (.opening .round)
  | ')' => some (.closing .round)
  | '[' => some (.opening .square)
  | ']' => some (.closing .square)
  | '{' => some (.opening .curly)
  | '}' => some (.closing .curly)
  | _ => none

/-- Where in the source a token begins: outside of strings, or inside of one. `braces` holds the
open curly brackets, innermost first, with the string around each that interrupts one. -/
structure Context where
  inside : Option Quote
  braces : List (Option Quote)
  deriving DecidableEq, Repr

def Context.start : Context := ⟨none, []⟩

def pieceToken (c : Context) (q : Quote) (skipped : Nat) (s : List Char) : Nat × Shape × Context :=
  match pieceLength q (s.drop skipped) with
  | (n, .closed) => (skipped + n, .literal, { c with inside := none })
  | (n, .expression) => (skipped + n, .opening .round, ⟨none, some q :: c.braces⟩)

def tokenAt (c : Context) (s : List Char) : Nat × Shape × Context :=
  match c.inside with
  | some q => pieceToken c q 0 s
  | none =>
    match s with
    | '"' :: '"' :: '"' :: _ => pieceToken c .triple 3 s
    | '"' :: _ => pieceToken c .single 1 s
    | '\'' :: rest => (charLength rest + 1, .literal, c)
    | '{' :: _ => (1, .opening .curly, { c with braces := none :: c.braces })
    | '}' :: _ =>
      match c.braces with
      | some q :: braces => (1, .closing .round, ⟨some q, braces⟩)
      | _ => (1, .closing .curly, { c with braces := c.braces.tail })
    | d :: _ =>
      match bracketShape? d with
      | some shape => (1, shape, c)
      | none =>
        if 0 < wordLength s then
          (wordLength s, if d.isDigit then .literal else .word, c)
        else (signLength s, .sign, c)
    | [] => (0, .sign, c)

/-- The tokens of a source, and what follows the last one. -/
def scan (c : Context) (s : List Char) : List Token × List Char :=
  let gap := if c.inside.isSome then 0 else gapLength .between s
  match _h : s.drop gap with
  | [] => ([], s)
  | d :: rest =>
    let (length, shape, c) := tokenAt c (d :: rest)
    let length := max 1 length
    let (tokens, ending) := scan c ((d :: rest).drop length)
    (⟨s.take gap, (d :: rest).take length, shape⟩ :: tokens, ending)
termination_by s.length
decreasing_by
  have := congrArg List.length _h
  simp only [List.length_drop, List.length_cons] at this ⊢
  omega

theorem scan_spelling (c : Context) (s : List Char) :
    (scan c s).1.flatMap Token.spelling ++ (scan c s).2 = s := by
  fun_induction scan c s with
  | case1 => simp
  | case2 c s gap d rest h length shape c' heq length' tokens ending hscan ih =>
    rw [hscan] at ih
    simp only [List.flatMap_cons, Token.spelling, List.append_assoc, ih, List.take_append_drop]
    rw [← h, List.take_append_drop]

end ClasspathSymbols.SourceFile
