import ClasspathSymbols.Config
import ClasspathSymbols.Index
import ClasspathSymbols.Workspace

/-!
# The index cache

Each project has its class path and index together, built from roots read at one time. An index
task takes what is there, unless it has been marked stale; then the roots are read again. A failed
build keeps what was there before, and a project that never had an index leaves nothing behind.
The mark is taken off before the roots are read, so that an invalidation meanwhile is not lost.
-/
namespace ClasspathSymbols

inductive IndexUnavailable where
  | roots (project : String) (e : RootsError)
  | build (project : String) (e : BuildError)
  | timeout (project : String) (waited : Nat)
  deriving DecidableEq, Repr

namespace IndexUnavailable

def project : IndexUnavailable → String
  | .roots project _ | .build project _ | .timeout project _ => project

def message : IndexUnavailable → String
  | .roots project e => s!"no classpath for project {project}: {e.message}"
  | .build project e => s!"failed to build type index for project {project}: {e.message}"
  | .timeout project waited =>
    s!"timed out after {durationText waited} waiting for the index of project {project}"

end IndexUnavailable

structure Host where
  files : Files
  model : ProjectModel
  /-- The projects that the model invalidates whenever it is asked for roots. -/
  invalidates : List String

/-- A class path and the index built from it; the serial number tells builds apart. -/
structure Indexed where
  serial : Nat
  classpath : Classpath
  index : Index

def Indexed.summary (ix : Indexed) : String :=
  "IndexedClasspath \x7b fingerprint: " ++ Text.Quoted.encode ix.classpath.fingerprint ++
    ", types: " ++ toString ix.index.typeCount ++ " \x7d"

structure Slot where
  current : Option Indexed
  stale : Bool

structure CacheCounts where
  (indexedProjects builds failedBuilds hits : Nat)
  deriving DecidableEq, Repr

structure IndexCache where
  slots : Table String Slot
  counts : CacheCounts

namespace IndexCache

def empty : IndexCache := ⟨.empty, ⟨0, 0, 0, 0⟩⟩

instance : Inhabited IndexCache := ⟨empty⟩

def slot (c : IndexCache) (project : String) : Slot :=
  (c.slots.get? project).getD ⟨none, false⟩

def putSlot (c : IndexCache) (project : String) (s : Slot) : IndexCache :=
  { c with slots := c.slots.insert project s }

def invalidate (c : IndexCache) (project : String) : Bool × IndexCache :=
  match c.slots.get? project with
  | none => (false, c)
  | some s => (true, c.putSlot project { s with stale := true })

def invalidateAll (c : IndexCache) (projects : List String) : IndexCache :=
  projects.foldl (fun c p => (c.invalidate p).2) c

def CacheCounts.drop (n : CacheCounts) (s : Slot) : CacheCounts :=
  if s.current.isSome then { n with indexedProjects := n.indexedProjects - 1 } else n

def remove (c : IndexCache) (project : String) : Bool × IndexCache :=
  match c.slots.get? project with
  | none => (false, c)
  | some s => (s.current.isSome, ⟨c.slots.erase project, CacheCounts.drop c.counts s⟩)

def clear (c : IndexCache) : IndexCache :=
  ⟨.empty, c.slots.entries.foldl (fun n e => CacheCounts.drop n e.2) c.counts⟩

def countHit (c : IndexCache) : IndexCache :=
  { c with counts := { c.counts with hits := c.counts.hits + 1 } }

def countFailure (c : IndexCache) : IndexCache :=
  { c with counts := { c.counts with failedBuilds := c.counts.failedBuilds + 1 } }

def readRoots (c : IndexCache) (host : Host) (project : String) :
    Except RootsError Roots × IndexCache :=
  (host.model.roots project, c.invalidateAll host.invalidates)

def build (c : IndexCache) (host : Host) (project : String) :
    Except IndexUnavailable Indexed × IndexCache :=
  match c.readRoots host project with
  | (.error e, c) => (.error (.roots project e), c)
  | (.ok roots, c) =>
    match Index.build host.files roots.classpath with
    | .error e => (.error (.build project e), c)
    | .ok index =>
      (.ok ⟨c.counts.builds, roots.classpath, index⟩,
        { c with counts := { c.counts with builds := c.counts.builds + 1 } })

def store (c : IndexCache) (project : String) (ix : Indexed) : IndexCache :=
  let s := c.slot project
  let counts := if s.current.isSome then c.counts
    else { c.counts with indexedProjects := c.counts.indexedProjects + 1 }
  ⟨c.slots.insert project { s with current := some ix }, counts⟩

/-- After a failed build: what was there stays and is marked again; a slot without an index
goes. -/
def fail (c : IndexCache) (project : String) : IndexCache :=
  let s := c.slot project
  if s.current.isSome then c.countFailure.putSlot project { s with stale := true }
  else { c.countFailure with slots := c.slots.erase project }

/-- Builds the index of a project, whose slot then is not stale unless the model says so. -/
def rebuild (c : IndexCache) (host : Host) (project : String) :
    Except IndexUnavailable Indexed × IndexCache :=
  match (c.putSlot project { c.slot project with stale := false }).build host project with
  | (.ok ix, c) => (.ok ix, c.store project ix)
  | (.error e, c) => (.error e, c.fail project)

def current (c : IndexCache) (host : Host) (project : String) :
    Except IndexUnavailable Indexed × IndexCache :=
  match c.slot project with
  | ⟨some ix, false⟩ => (.ok ix, c.countHit)
  | _ => c.rebuild host project

/-- What an index task runs under: the projects that are held around it, and how long it waits
for one of these before it gives up. -/
structure Access where
  host : Host
  held : List String
  timeout : Nat

/-- An index task. One on a project that is held waits in vain. -/
def task (c : IndexCache) (a : Access) (project : String) :
    Except IndexUnavailable Indexed × IndexCache :=
  if a.held.contains project then (.error (.timeout project a.timeout), c)
  else c.current a.host project

def ask {α : Type} (c : IndexCache) (a : Access) (project : String) (f : Index → α) :
    Except IndexUnavailable α × IndexCache :=
  let (r, c) := c.task a project
  (r.map fun ix => f ix.index, c)

end IndexCache

end ClasspathSymbols
