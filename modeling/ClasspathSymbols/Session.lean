import ClasspathSymbols.IndexCache.Owner
import ClasspathSymbols.Query

/-!
# Sessions

A session is a row of steps on files, projects and the index cache. A nested step runs others
while it holds the index of a project. Each step has an answer, and the counts of the cache after
it belong to the answer.
-/
namespace ClasspathSymbols

inductive Step where
  | write (file : Path) (content : ByteArray)
  | delete (file : Path)
  | setWorkspace (w : Workspace)
  | breakRoots (project reason : String)
  | fixRoots (project : String)
  | onRoots (invalidates : List String)
  | get (project : String)
  | query (project : String) (q : Query)
  | declares (project : String) (s : Symbol)
  | invalidate (project : String)
  | remove (project : String)
  | clear
  | owner (s : Symbol) (candidates : List String)
  | ownerAmongOpen (s : Symbol)
  | deprecatedInOwner (s : Symbol) (candidates : List String)
  | guestFiles (project : String) (extensions : List String)
  | timeout
  | nested (project : String) (steps : List Step)

inductive Answer where
  | done
  | flag (b : Bool)
  | indexed (ix : Indexed)
  | query (a : QueryAnswer)
  | owner (project : Option String)
  | files (project : String) (paths : List Path)
  | milliseconds (n : Nat)
  | unavailable (e : IndexUnavailable)
  | noRoots (e : RootsError)
  | nested (answers : List (Answer × CacheCounts))

structure Session where
  host : Host
  cache : IndexCache
  timeout : Nat

namespace Session

def start (fs : Files) (w : Workspace) (timeout : Nat) : Session :=
  ⟨⟨fs, .ofWorkspace w, []⟩, .empty, timeout⟩

def access (s : Session) (held : List String) : IndexCache.Access := ⟨s.host, held, s.timeout⟩

def withFiles (s : Session) (fs : Files) : Session := { s with host := { s.host with files := fs } }

def withModel (s : Session) (m : ProjectModel) : Session :=
  { s with host := { s.host with model := m } }

def withCache (s : Session) (c : IndexCache) : Session := { s with cache := c }

def answerOf {α : Type} (encode : α → Answer) : Except IndexUnavailable α → Answer
  | .ok v => encode v
  | .error e => .unavailable e

def onCache {α : Type} (s : Session) (encode : α → Answer)
    (r : Except IndexUnavailable α × IndexCache) : Answer × Session :=
  (answerOf encode r.1, s.withCache r.2)

def delete (s : Session) (file : Path) : Answer × Session :=
  match s.host.files.resolve file with
  | .ok l => (.flag true, s.withFiles (s.host.files.remove l))
  | .error _ => (.flag false, s)

def fixRoots (s : Session) (project : String) : Answer × Session :=
  let broken := s.host.model.broken
  (.flag ((broken.lookup project).isSome),
    s.withModel { s.host.model with broken := broken.filter (·.1 ≠ project) })

/-- The guest files of a project. The model is asked for roots only if it has the guest language. -/
def guestFiles (s : Session) (project : String) (extensions : List String) : Answer × Session :=
  let answer := match s.host.model.guestFiles s.host.files project extensions with
    | .ok paths => .files project paths
    | .error e => .noRoots e
  if s.host.model.hasGuest project then
    (answer, s.withCache (s.cache.readRoots s.host project).2)
  else (answer, s)

mutual

def run (held : List String) (s : Session) : Step → Answer × Session
  | .write file content =>
    (.done, s.withFiles (s.host.files.write (s.host.files.locate file) content))
  | .delete file => s.delete file
  | .setWorkspace w => (.done, s.withModel { s.host.model with workspace := w })
  | .breakRoots project reason =>
    (.done, s.withModel { s.host.model with broken := (project, reason) :: s.host.model.broken })
  | .fixRoots project => s.fixRoots project
  | .onRoots projects => (.done, { s with host := { s.host with invalidates := projects } })
  | .get project => s.onCache .indexed (s.cache.task (s.access held) project)
  | .query project q => s.onCache .query (s.cache.ask (s.access held) project (·.answer q))
  | .declares project sym =>
    s.onCache .flag (s.cache.ask (s.access held) project (·.declares sym))
  | .invalidate project =>
    let (b, c) := s.cache.invalidate project
    (.flag b, s.withCache c)
  | .remove project =>
    let (b, c) := s.cache.remove project
    (.flag b, s.withCache c)
  | .clear => (.done, s.withCache s.cache.clear)
  | .owner sym projects => s.onCache .owner (s.cache.owner (s.access held) sym projects)
  | .ownerAmongOpen sym =>
    s.onCache .owner (s.cache.owner (s.access held) sym s.host.model.workspace.openProjects)
  | .deprecatedInOwner sym projects =>
    s.onCache .flag (s.cache.deprecatedInOwner (s.access held) sym projects)
  | .guestFiles project extensions => s.guestFiles project extensions
  | .timeout => (.milliseconds s.timeout, s)
  | .nested project steps =>
    match s.cache.task (s.access held) project with
    | (.error e, c) => (.unavailable e, s.withCache c)
    | (.ok _, c) =>
      let (answers, s) := runAll (project :: held) (s.withCache c) steps
      (.nested answers, s)

def runAll (held : List String) (s : Session) : List Step → List (Answer × CacheCounts) × Session
  | [] => ([], s)
  | step :: rest =>
    let (a, s) := run held s step
    let (answers, last) := runAll held s rest
    ((a, s.cache.counts) :: answers, last)

end

end Session

end ClasspathSymbols
