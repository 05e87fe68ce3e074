import ClasspathSymbols.Json.Decode
import ClasspathSymbols.Workspace

/-!
# Workspaces in JSON

A workspace has the field `projects`, and may be an array of that field alone. A project has a
`name`, may say whether it has the `guest` language, and may list roots under `boot`, `source` and
`compile`. The fields of a project that are not its name and guest flag are taken as a whole
before the roots are looked for among them.
-/
namespace ClasspathSymbols

open Json (Problem Decoder Reading Items)

def Json.strings? : Json → Option (List String)
  | .array items => items.mapM Json.string?
  | _ => none

namespace Project

structure Draft where
  name : Option String
  guest : Option Bool
  others : List (String × Json)

def Draft.empty : Draft := ⟨none, none, []⟩

def Draft.read (depth : Nat) (d : Draft) (key : String) (r : Reading) : Except Problem Draft := do
  if key = "name" then
    return { d with name := ← Json.once d.name (Decoder.string depth r) }
  else if key = "guest" then
    return { d with guest := ← Json.once d.guest (Decoder.bool depth r) }
  else return { d with others := d.others ++ [(key, ← r.buffer depth)] }

def pathsUnder (key : String) (fields : List (String × Json)) : Except Problem (List Path) :=
  match fields.filter (·.1 = key) with
  | [] => .ok []
  | [(_, v)] =>
    match Json.strings? v with
    | some texts => .ok (texts.map Path.mk)
    | none => .error .wrongShape
  | _ => .error .wrongShape

def Draft.finish (d : Draft) : Except Problem Project := do
  match d.name with
  | none => throw .wrongShape
  | some name =>
    return {
      name
      guest := d.guest.getD true
      roots := {
        boot := ← pathsUnder "boot" d.others
        source := ← pathsUnder "source" d.others
        compile := ← pathsUnder "compile" d.others } }

def decoder : Decoder Project := .object .empty Draft.read Draft.finish

end Project

namespace Workspace

def readField (depth : Nat) (projects : Option (List Project)) (key : String) (r : Reading) :
    Except Problem (Option (List Project)) :=
  if key = "projects" then Json.once projects (Decoder.list Project.decoder depth r)
  else r.skip.map fun _ => projects

def fromItems (depth : Nat) (xs : Items) : Except Problem (Workspace × Items) := do
  let (projects, xs) ← xs.next (Decoder.list Project.decoder) depth
  return (⟨projects.getD []⟩, xs)

def decoder : Decoder Workspace :=
  .record none readField (fun projects => .ok ⟨projects.getD []⟩) fromItems

def ofText (text : String) : Except Problem Workspace := Json.decode decoder text

end Workspace

end ClasspathSymbols
