import ClasspathSymbols.Json.Decode
import ClasspathSymbols.Json.Printer
import ClasspathSymbols.Query

/-!
# Queries in JSON

A query is an object with its kind under `query` and its one field beside it, or an array of the
kind and the fields. The kind is looked at when it comes up; everything else is taken as a whole
first.
-/
namespace ClasspathSymbols

open Json (Problem Decoder Reading)

namespace SymbolKind

def word : SymbolKind → String
  | .type => "type"
  | .package => "package"
  | .element => "element"

def ofWord? (word : String) : Option SymbolKind :=
  [type, package, element].find? fun k => k.word = word

/-- A kind is a word, or an object with the word as its only key and nothing under it. -/
def ofJson? : Json → Option SymbolKind
  | .string word => ofWord? word
  | .object [(word, .null)] | .object [(word, .object [])] => ofWord? word
  | _ => none

end SymbolKind

def Json.field? (key : String) (fields : List (String × Json)) : Option Json :=
  match fields.filter (·.1 = key) with
  | [(_, v)] => some v
  | _ => none

namespace Symbol

def toJson (s : Symbol) : Json :=
  .object [("fq_name", .string s.name), ("kind", .string s.kind.word)]

def ofParts? (name kind : Json) : Option Symbol := do
  return ⟨← Json.string? name, ← SymbolKind.ofJson? kind⟩

def ofJson? : Json → Option Symbol
  | .object fields => do ofParts? (← Json.field? "fq_name" fields) (← Json.field? "kind" fields)
  | .array [name, kind] => ofParts? name kind
  | _ => none

end Symbol

namespace Query

inductive Kind where
  | type | package | binaryName | isDeprecated | location | simpleName | packages
  deriving DecidableEq, Repr

namespace Kind

def all : List Kind := [type, package, binaryName, isDeprecated, location, simpleName, packages]

def word : Kind → String
  | .type => "type"
  | .package => "package"
  | .binaryName => "binary_name"
  | .isDeprecated => "is_deprecated"
  | .location => "location"
  | .simpleName => "simple_name"
  | .packages => "packages"

def ofWord? (word : String) : Option Kind := all.find? fun k => k.word = word

def fieldKey : Kind → String
  | .type | .package | .binaryName => "fq_name"
  | .isDeprecated | .location => "symbol"
  | .simpleName => "simple_name"
  | .packages => "prefix"

def query? (k : Kind) (v : Json) : Option Query :=
  match k with
  | .type => (Json.string? v).map .type
  | .package => (Json.string? v).map .package
  | .binaryName => (Json.string? v).map .binaryName
  | .isDeprecated => (Symbol.ofJson? v).map .isDeprecated
  | .location => (Symbol.ofJson? v).map .location
  | .simpleName => (Json.string? v).map .simpleName
  | .packages => (Json.string? v).map .packages

end Kind

def kind : Query → Kind
  | .type _ => .type
  | .package _ => .package
  | .binaryName _ => .binaryName
  | .isDeprecated _ => .isDeprecated
  | .location _ => .location
  | .simpleName _ => .simpleName
  | .packages _ => .packages

def fieldValue : Query → Json
  | .type name | .package name | .binaryName name | .simpleName name | .packages name =>
    .string name
  | .isDeprecated s | .location s => s.toJson

def kindKey : String := "query"

def toJson (q : Query) : Json :=
  .object [(kindKey, .string q.kind.word), (q.kind.fieldKey, q.fieldValue)]

def toText (q : Query) : String := q.toJson.compact

def kindDecoder : Decoder Kind := fun depth r => do
  match Kind.ofWord? (← Decoder.string depth r) with
  | some k => return k
  | none => throw .wrongShape

structure Draft where
  kind : Option Kind
  others : List (String × Json)

def Draft.read (depth : Nat) (d : Draft) (key : String) (r : Reading) : Except Problem Draft := do
  if key = kindKey then return { d with kind := ← Json.once d.kind (kindDecoder depth r) }
  else return { d with others := d.others ++ [(key, ← r.buffer depth)] }

def shaped {α : Type} (x : Option α) : Except Problem α :=
  match x with
  | some v => .ok v
  | none => .error .wrongShape

def Draft.finish (d : Draft) : Except Problem Query := do
  let k ← shaped d.kind
  shaped ((Json.field? k.fieldKey d.others).bind k.query?)

def ofItems (depth : Nat) (items : List Reading) (ending : Json.Ending) : Except Problem Query := do
  match items with
  | [] =>
    ending.check
    throw .wrongShape
  | first :: rest =>
    let k ← kindDecoder depth first
    let values ← Json.bufferItems depth rest
    ending.check
    match values with
    | [v] => shaped (k.query? v)
    | _ => throw .wrongShape

def decoder : Decoder Query := fun depth r =>
  match r with
  | .array items ending => do ofItems (← Json.enter depth) items ending
  | r => Decoder.object ⟨none, []⟩ Draft.read Draft.finish depth r

def ofText (text : String) : Except Problem Query := Json.decode decoder text

end Query

end ClasspathSymbols
