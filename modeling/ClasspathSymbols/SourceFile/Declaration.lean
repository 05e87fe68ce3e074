import ClasspathSymbols.SourceFile.Tree

/-!
# Declarations of a source file

A source is a row of items: declarations, statements and members. Items are told apart by what
stands in front of them and by where they end, without looking ahead: a semicolon ends an item,
and so does a block, unless the item has come to an expression. Types that a statement brings in,
and those inside methods, initialisers and constants, come under `other`.
-/
namespace ClasspathSymbols.SourceFile

inductive TypeForm where
  | ofClass | ofInterface | ofEnum | ofRecord | ofAnnotationType
  deriving DecidableEq, Repr

inductive Node where
  | package (name : String)
  /-- A type with the names of its own annotations. -/
  | type (form : TypeForm) (annotations : List String) (name : String) (members : List Node)
  /-- The members of an enumeration that come behind its constants. -/
  | behindConstants (members : List Node)
  | other (children : List Node)

def slice : List Token → String
  | [] => ""
  | t :: rest => String.ofList (t.text ++ rest.flatMap Token.spelling)

structure Front where
  hidden : Bool
  annotations : List String
  deriving DecidableEq, Repr

def Front.start : Front := ⟨false, []⟩

def Front.inStatement : Front := ⟨true, []⟩

inductive Reading where
  | front (f : Front)
  | annotating (f : Front) (name : List Token)
  | named (f : Front) (form : TypeForm)
  /-- After the word `record`, which may be any name, and after a name behind it. -/
  | maybeRecord (f : Front) (name : Option Token)
  | header (f : Front) (form : TypeForm) (name : Token)
  | package (f : Front) (name : List Token)
  /-- After a word that a condition follows and then a statement. -/
  | condition
  /-- Inside of an item that declares no type. -/
  | rest (inExpression mayBeLabel : Bool)
  /-- Among the constants of an enumeration. -/
  | constants
  deriving Repr

def Reading.start : Reading := .front .start

def modifiers : List String :=
  ["public", "protected", "private", "abstract", "static", "final", "strictfp", "default",
    "synchronized", "native", "transient", "volatile", "sealed", "non-sealed"]

/-- Words and signs that only expressions have, or that an expression follows. -/
def expressionMarks : List String :=
  ["new", "return", "throw", "yield", "assert", "->", "=", "+=", "-=", "*=", "/=", "&=", "|=",
    "^=", "%=", "<<=", ">>=", ">>>="]

def typeForm? : String → Option TypeForm
  | "class" => some .ofClass
  | "interface" => some .ofInterface
  | "enum" => some .ofEnum
  | "@interface" => some .ofAnnotationType
  | _ => none

def Front.wrap (f : Front) (n : Node) : Node := if f.hidden then .other [n] else n

def restLeaf (inExpression mayBeLabel : Bool) (t : Token) : Reading :=
  let text := String.ofList t.text
  if text = ";" then .start
  else if text = ":" ∧ mayBeLabel then .front .inStatement
  else .rest (inExpression || expressionMarks.contains text) false

/-- The first word of an item that is not known, which may be a label. -/
def firstWord (t : Token) : Reading :=
  .rest (expressionMarks.contains (String.ofList t.text)) true

def frontLeaf (f : Front) (t : Token) : Reading :=
  let text := String.ofList t.text
  match t.shape with
  | .word =>
    if modifiers.contains text then .front f
    else if text = "record" then .maybeRecord f none
    else if text = "package" then .package f []
    else if text = "else" ∨ text = "do" then .front .inStatement
    else if text = "if" ∨ text = "while" ∨ text = "for" then .condition
    else match typeForm? text with
      | some form => .named f form
      | none => firstWord t
  | _ =>
    if text = "@" then .annotating f []
    else restLeaf false false t

def Front.annotate (f : Front) (name : List Token) : Front :=
  { f with annotations := f.annotations ++ [slice name] }

def continuesName (name : List Token) (t : Token) : Bool :=
  match name.getLast? with
  | some last => if last.shape = .word then t.text = ['.'] else t.shape = .word
  | none => t.shape = .word

def stepLeaf (r : Reading) (t : Token) : List Node × Reading :=
  let isWord := t.shape = .word
  match r with
  | .front f => ([], frontLeaf f t)
  | .annotating f name =>
    if continuesName name t then ([], .annotating f (name ++ [t]))
    else ([], frontLeaf (f.annotate name) t)
  | .named f form => ([], if isWord then .header f form t else restLeaf false false t)
  | .maybeRecord f none =>
    ([], if isWord then .maybeRecord f (some t) else restLeaf false true t)
  | .maybeRecord f (some name) =>
    ([], if t.text = ['<'] then .header f .ofRecord name else restLeaf false false t)
  | .header f form name => ([], if t.text = [';'] then .start else .header f form name)
  | .package f name =>
    if t.text = [';'] then ([f.wrap (.package (slice name))], .start)
    else ([], .package f (name ++ [t]))
  | .condition => ([], frontLeaf .inStatement t)
  | .rest inExpression mayBeLabel => ([], restLeaf inExpression mayBeLabel t)
  | .constants => ([], if t.text = [';'] then .start else .constants)

def restGroup (inExpression : Bool) (b : Bracket) : Reading :=
  if b = .curly ∧ !inExpression then .start else .rest inExpression false

def Reading.inner : Reading → Bracket → Reading
  | .header _ .ofEnum _, .curly => .constants
  | _, _ => .start

def stepGroup (r : Reading) (b : Bracket) (items : List Node) : List Node × Reading :=
  match r with
  | .annotating f name =>
    ([.other items], if b = .round then .front (f.annotate name) else restGroup false b)
  | .maybeRecord f (some name) =>
    ([.other items], if b = .round then .header f .ofRecord name else restGroup false b)
  | .header f form name =>
    if b = .curly then
      ([f.wrap (.type form f.annotations (String.ofList name.text) items)], .start)
    else ([.other items], .header f form name)
  | .condition => ([.other items], if b = .round then .front .inStatement else restGroup false b)
  | .constants => ([.other items], .constants)
  | .rest inExpression _ => ([.other items], restGroup inExpression b)
  | _ => ([.other items], restGroup false b)

def Reading.isAmongConstants : Reading → Bool
  | .constants => true
  | _ => false

/-- What is read on from `next` stands a level deeper if the constants ended there. -/
def Reading.behind (r next : Reading) (nodes : List Node) : List Node :=
  if r.isAmongConstants && !next.isAmongConstants then [.behindConstants nodes] else nodes

mutual

def Tree.nodes (r : Reading) : Tree → List Node × Reading
  | .leaf t => stepLeaf r t
  | .group b children => stepGroup r b (nodesOf (r.inner b) children)

def nodesOf (r : Reading) : List Tree → List Node
  | [] => []
  | t :: rest =>
    let (nodes, next) := t.nodes r
    nodes ++ r.behind next (nodesOf next rest)

end

def nodesOfText (source : String) : List Node :=
  nodesOf .start (Tree.ofTokens (scan .start source.toList).1)

end ClasspathSymbols.SourceFile
