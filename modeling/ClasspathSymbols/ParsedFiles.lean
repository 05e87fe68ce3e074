import ClasspathSymbols.Content
import ClasspathSymbols.Text.LineEnding

/-!
# Parsed guest files

The trees of guest files are kept with the text they were parsed from. A tree is replaced only if
the text read for its file, its line endings normalised, is another one. Failures leave what is
kept as it is.
-/
namespace ClasspathSymbols

inductive ParseError where
  | rejected (reason : String)
  | noRoot
  deriving DecidableEq, Repr

def ParseError.message : ParseError → String
  | .rejected reason => s!"parser rejected input: {reason}"
  | .noRoot => "parser produced no root node"

inductive SourceError where
  | content (e : ContentError)
  | parse (e : ParseError)
  deriving DecidableEq, Repr

def SourceError.message : SourceError → String
  | .content e => e.message
  | .parse e => e.message

/-- A text with normalised line endings and the file that it belongs to, if any. -/
structure SourceText where
  file : Option GuestFile
  text : String
  deriving DecidableEq, Repr

def SourceText.of (file : Option GuestFile) (text : String) : SourceText :=
  ⟨file, (Text.normalizeText text).text⟩

abbrev GuestParser (τ : Type) := SourceText → Except ParseError τ

/-- A tree with its source; the serial number tells parses apart. -/
structure ParsedTree (τ : Type) where
  serial : Nat
  source : SourceText
  tree : τ

structure ParseCounts where
  (cachedFiles parses hits : Nat)
  deriving DecidableEq, Repr

structure ParsedFiles (τ : Type) where
  slots : Table GuestFile.Key (ParsedTree τ)
  counts : ParseCounts
  /-- How often the parser was called. -/
  calls : Nat

namespace ParsedFiles

variable {τ : Type}

def empty : ParsedFiles τ := ⟨.empty, ⟨0, 0, 0⟩, 0⟩

def parseSource (c : ParsedFiles τ) (parser : GuestParser τ) (source : SourceText) :
    Except ParseError (ParsedTree τ) × ParsedFiles τ :=
  let c := { c with calls := c.calls + 1 }
  match parser source with
  | .error e => (.error e, c)
  | .ok tree =>
    (.ok ⟨c.counts.parses, source, tree⟩,
      { c with counts := { c.counts with parses := c.counts.parses + 1 } })

def parse (c : ParsedFiles τ) (parser : GuestParser τ) (f : GuestFile) (text : String) :
    Except ParseError (ParsedTree τ) × ParsedFiles τ :=
  c.parseSource parser (.of (some f) text)

def parseDetached (c : ParsedFiles τ) (parser : GuestParser τ) (text : String) :
    Except ParseError (ParsedTree τ) × ParsedFiles τ :=
  c.parseSource parser (.of none text)

def cached (c : ParsedFiles τ) (f : GuestFile) : Option (ParsedTree τ) := c.slots.get? f.key

def store (c : ParsedFiles τ) (f : GuestFile) (t : ParsedTree τ) : ParsedFiles τ :=
  let cachedFiles := if (c.cached f).isSome then c.counts.cachedFiles
    else c.counts.cachedFiles + 1
  { c with slots := c.slots.insert f.key t, counts := { c.counts with cachedFiles } }

def countHit (c : ParsedFiles τ) : ParsedFiles τ :=
  { c with counts := { c.counts with hits := c.counts.hits + 1 } }

/-- The tree for a text of the file: the one that is kept, if its text is the same. -/
def update (c : ParsedFiles τ) (parser : GuestParser τ) (f : GuestFile) (text : String) :
    Except ParseError (ParsedTree τ) × ParsedFiles τ :=
  match (c.cached f).filter fun t => t.source.text = text with
  | some t => (.ok t, c.countHit)
  | none =>
    match c.parse parser f text with
    | (.error e, c) => (.error e, c)
    | (.ok t, c) => (.ok t, c.store f t)

def get {γ : Type} [ContentProvider γ] (c : ParsedFiles τ) (parser : GuestParser τ) (content : γ)
    (f : GuestFile) : Except SourceError (ParsedTree τ) × ParsedFiles τ :=
  match ContentProvider.readText content f with
  | .error e => (.error (.content e), c)
  | .ok raw =>
    let (r, c) := c.update parser f (Text.normalizeText raw).text
    (r.mapError .parse, c)

def evict (c : ParsedFiles τ) (f : GuestFile) : Bool × ParsedFiles τ :=
  match c.cached f with
  | none => (false, c)
  | some _ =>
    (true, { c with
      slots := c.slots.erase f.key
      counts := { c.counts with cachedFiles := c.counts.cachedFiles - 1 } })

def clear (c : ParsedFiles τ) : ParsedFiles τ :=
  { c with
    slots := .empty
    counts := { c.counts with cachedFiles := c.counts.cachedFiles - c.slots.size } }

end ParsedFiles

end ClasspathSymbols
