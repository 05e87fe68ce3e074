import ClasspathSymbols.Proofs.IndexCache.Task
import ClasspathSymbols.Session

/-! # Runs of the index cache

A run is a row of operations. Each index task brings its own access, so the files, the model, the
marks that the model raises and the projects held around the task may be other ones every time.
Sessions run no other operations: a nested task is its outer task followed by the inner ones, and
an owner is looked for with one task a candidate, up to the first that declares the symbol. -/
namespace ClasspathSymbols
namespace IndexCache

inductive Op where
  | task (a : Access) (project : String)
  | invalidate (project : String)
  | remove (project : String)
  | clear

def apply (c : IndexCache) : Op → IndexCache
  | .task a p => (c.task a p).2
  | .invalidate p => (c.invalidate p).2
  | .remove p => (c.remove p).2
  | .clear => c.clear

def afterOps (c : IndexCache) (ops : List Op) : IndexCache := ops.foldl apply c

@[simp] theorem afterOps_nil (c : IndexCache) : c.afterOps [] = c := rfl

@[simp] theorem afterOps_cons (c : IndexCache) (op : Op) (ops : List Op) :
    c.afterOps (op :: ops) = (c.apply op).afterOps ops := rfl

theorem afterOps_append (c : IndexCache) (ops more : List Op) :
    c.afterOps (ops ++ more) = (c.afterOps ops).afterOps more := List.foldl_append

theorem afterOps_invalidate (c : IndexCache) (ps : List String) :
    c.afterOps (ps.map .invalidate) = c.invalidateAll ps := List.foldl_map

def Throughout (P : IndexCache → Op → Prop) (c : IndexCache) : List Op → Prop
  | [] => True
  | op :: ops => P c op ∧ Throughout P (c.apply op) ops

theorem throughout_append {P : IndexCache → Op → Prop} (c : IndexCache) (ops more : List Op) :
    Throughout P c (ops ++ more) ↔ Throughout P c ops ∧ Throughout P (c.afterOps ops) more := by
  induction ops generalizing c with
  | nil => simp [Throughout]
  | cons op ops ih =>
    rw [List.cons_append, Throughout, Throughout, ih, afterOps_cons, and_assoc]

theorem Throughout.mono {P Q : IndexCache → Op → Prop} (h : ∀ c op, P c op → Q c op)
    {c : IndexCache} {ops : List Op} (hp : Throughout P c ops) : Throughout Q c ops := by
  induction ops generalizing c with
  | nil => trivial
  | cons op ops ih => exact ⟨h c op hp.1, ih hp.2⟩

theorem throughout_of_forall {P : IndexCache → Op → Prop} (h : ∀ c op, P c op) (c : IndexCache)
    (ops : List Op) : Throughout P c ops := by
  induction ops generalizing c with
  | nil => trivial
  | cons op ops ih => exact ⟨h c op, ih (c.apply op)⟩

def searchOps (a : Access) (s : Symbol) (c : IndexCache) : List String → List Op
  | [] => []
  | p :: rest => .task a p ::
    match c.ask a p fun ix => ix.declares s with
    | (.ok true, _) => []
    | (.ok false, c) => searchOps a s c rest
    | (.error _, c) => searchOps a s c rest

def ownerOps (c : IndexCache) (a : Access) (s : Symbol) (projects : List String) : List Op :=
  match projects with
  | [_] => []
  | projects => searchOps a s c (candidates a.host.model.hasGuest [] projects)

def deprecatedInOwnerOps (c : IndexCache) (a : Access) (s : Symbol) (projects : List String) :
    List Op :=
  c.ownerOps a s projects ++
    match c.owner a s projects with
    | (.ok (some p), _) => [.task a p]
    | _ => []

theorem afterOps_searchOps (a : Access) (s : Symbol) (c : IndexCache)
    (failure : Option IndexUnavailable) (ps : List String) :
    c.afterOps (searchOps a s c ps) = (search a s c failure ps).2 := by
  induction ps generalizing c failure with
  | nil => rfl
  | cons p ps ih =>
    have hd : (c.task a p).2 = (c.ask a p fun ix => ix.declares s).2 := rfl
    rw [searchOps, search, afterOps_cons, apply, hd]
    rcases c.ask a p fun ix => ix.declares s with ⟨e | found, d⟩
    · exact ih d _
    · cases found with
      | true => rfl
      | false => exact ih d _

theorem afterOps_ownerOps (c : IndexCache) (a : Access) (s : Symbol) (ps : List String) :
    c.afterOps (c.ownerOps a s ps) = (c.owner a s ps).2 := by
  cases ps with
  | nil => rfl
  | cons p ps =>
    cases ps with
    | nil => rfl
    | cons q ps => exact afterOps_searchOps a s c none _

theorem afterOps_deprecatedInOwnerOps (c : IndexCache) (a : Access) (s : Symbol)
    (ps : List String) :
    c.afterOps (c.deprecatedInOwnerOps a s ps) = (c.deprecatedInOwner a s ps).2 := by
  have h := afterOps_ownerOps c a s ps
  rw [deprecatedInOwnerOps, deprecatedInOwner, afterOps_append, h]
  rcases c.owner a s ps with ⟨e | found, d⟩
  · rfl
  · cases found <;> rfl

end IndexCache

def Step.runsTasks : Step → Bool
  | .get _ | .query .. | .declares .. | .owner .. | .ownerAmongOpen _ | .deprecatedInOwner ..
  | .nested .. => true
  | _ => false

namespace Session

open IndexCache

mutual

/-- What a step does to the cache, one operation after another. -/
def operations (held : List String) (s : Session) : Step → List Op
  | .write .. | .delete _ | .setWorkspace _ | .breakRoots .. | .fixRoots _ | .onRoots _
  | .timeout => []
  | .get p | .query p _ | .declares p _ => [.task (s.access held) p]
  | .invalidate p => [.invalidate p]
  | .remove p => [.remove p]
  | .clear => [.clear]
  | .owner sym projects => s.cache.ownerOps (s.access held) sym projects
  | .ownerAmongOpen sym =>
    s.cache.ownerOps (s.access held) sym s.host.model.workspace.openProjects
  | .deprecatedInOwner sym projects =>
    s.cache.deprecatedInOwnerOps (s.access held) sym projects
  | .guestFiles p _ =>
    if s.host.model.hasGuest p then s.host.invalidates.map .invalidate else []
  | .nested p steps => .task (s.access held) p ::
    match s.cache.task (s.access held) p with
    | (.error _, _) => []
    | (.ok _, c) => operationsAll (p :: held) (s.withCache c) steps

def operationsAll (held : List String) (s : Session) : List Step → List Op
  | [] => []
  | t :: rest => operations held s t ++ operationsAll held (run held s t).2 rest

end

theorem no_task_of_runsTasks {t : Step} (ht : t.runsTasks = false) (held : List String)
    (s : Session) (a : Access) (p : String) : .task a p ∉ operations held s t := by
  cases t with
  | get | query | declares | owner | ownerAmongOpen | deprecatedInOwner | nested => cases ht
  | guestFiles q extensions =>
    rw [operations]
    split <;> simp
  | _ => simp [operations]

mutual

theorem cache_run (held : List String) (s : Session) (t : Step) :
    (run held s t).2.cache = s.cache.afterOps (operations held s t) := by
  cases t with
  | write | setWorkspace | breakRoots | fixRoots | onRoots | timeout => rfl
  | delete file =>
    simp only [run, delete]
    split <;> rfl
  | get | query | declares | invalidate | remove | clear => rfl
  | owner sym ps => exact (afterOps_ownerOps _ _ _ _).symm
  | ownerAmongOpen sym => exact (afterOps_ownerOps _ _ _ _).symm
  | deprecatedInOwner sym ps => exact (afterOps_deprecatedInOwnerOps _ _ _ _).symm
  | guestFiles p extensions =>
    simp only [run, guestFiles, operations]
    split
    · exact (afterOps_invalidate _ _).symm
    · rfl
  | nested p steps =>
    rw [run, operations, afterOps_cons, apply]
    rcases s.cache.task (s.access held) p with ⟨e | ix, c⟩
    · rfl
    · exact cache_runAll (p :: held) (s.withCache c) steps

theorem cache_runAll (held : List String) (s : Session) (steps : List Step) :
    (runAll held s steps).2.cache = s.cache.afterOps (operationsAll held s steps) := by
  cases steps with
  | nil => rfl
  | cons t steps =>
    rw [runAll, operationsAll, afterOps_append, ← cache_run held s t]
    exact cache_runAll held (run held s t).2 steps

end

end Session

end ClasspathSymbols
