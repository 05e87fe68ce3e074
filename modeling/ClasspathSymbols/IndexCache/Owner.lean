import ClasspathSymbols.IndexCache

/-!
# Owners

Which of several projects declares a symbol. A single candidate is the owner without a look; among
others, projects without the guest language and repeated ones are left out, and the first whose
index declares the symbol is the owner. A project whose index is unavailable is passed over, but
if no owner is found the first such failure is the answer.
-/
namespace ClasspathSymbols.IndexCache

def candidates (keep : String → Bool) (seen : List String) : List String → List String
  | [] => []
  | p :: rest =>
    if seen.contains p then candidates keep seen rest
    else if keep p then p :: candidates keep (p :: seen) rest
    else candidates keep (p :: seen) rest

/-- Asks the candidates one by one; `failure` is the first that came up. -/
def search (a : Access) (s : Symbol) (c : IndexCache) (failure : Option IndexUnavailable) :
    List String → Except IndexUnavailable (Option String) × IndexCache
  | [] => (match failure with
    | some e => .error e
    | none => .ok none, c)
  | p :: rest =>
    match c.ask a p fun ix => ix.declares s with
    | (.ok true, c) => (.ok (some p), c)
    | (.ok false, c) => search a s c failure rest
    | (.error e, c) => search a s c (failure.or (some e)) rest

def owner (c : IndexCache) (a : Access) (s : Symbol) (projects : List String) :
    Except IndexUnavailable (Option String) × IndexCache :=
  match projects with
  | [only] => (.ok (some only), c)
  | projects => search a s c none (candidates a.host.model.hasGuest [] projects)

/-- Whether the symbol is deprecated in its owner; without an owner it is not. -/
def deprecatedInOwner (c : IndexCache) (a : Access) (s : Symbol) (projects : List String) :
    Except IndexUnavailable Bool × IndexCache :=
  match c.owner a s projects with
  | (.error e, c) => (.error e, c)
  | (.ok none, c) => (.ok false, c)
  | (.ok (some p), c) => c.ask a p fun ix => ix.isDeprecated s

end ClasspathSymbols.IndexCache
