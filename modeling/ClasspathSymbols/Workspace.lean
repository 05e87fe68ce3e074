import ClasspathSymbols.Classpath
import ClasspathSymbols.Files.Walk

/-!
# Workspaces

A workspace lists projects with their roots; of several projects of one name the first counts.
Only projects with the guest language own symbols and have guest files.
-/
namespace ClasspathSymbols

structure Project where
  name : String
  guest : Bool
  roots : Roots
  deriving DecidableEq, Repr

structure Workspace where
  projects : List Project
  deriving DecidableEq, Repr, Inhabited

inductive RootsError where
  | unknownProject (project : String)
  | unavailable (project reason : String)
  deriving DecidableEq, Repr

def RootsError.message : RootsError → String
  | .unknownProject project => s!"unknown project: {project}"
  | .unavailable project reason => s!"classpath unavailable for {project}: {reason}"

namespace Workspace

def project? (w : Workspace) (name : String) : Option Project :=
  w.projects.find? fun p => p.name = name

def openProjects (w : Workspace) : List String := w.projects.map (·.name)

def sole? (w : Workspace) : Option String :=
  match w.openProjects with
  | [only] => some only
  | _ => none

def hasGuest (w : Workspace) (name : String) : Bool :=
  match w.project? name with
  | some p => p.guest
  | none => false

end Workspace

/-- What is known of the projects: the workspace, and why the roots of some are unavailable. -/
structure ProjectModel where
  workspace : Workspace
  broken : List (String × String)
  deriving Repr, Inhabited

namespace ProjectModel

def ofWorkspace (w : Workspace) : ProjectModel := ⟨w, []⟩

def roots (m : ProjectModel) (project : String) : Except RootsError Roots :=
  match m.broken.lookup project with
  | some reason => .error (.unavailable project reason)
  | none =>
    match m.workspace.project? project with
    | some p => .ok p.roots
    | none => .error (.unknownProject project)

def hasGuest (m : ProjectModel) (project : String) : Bool := m.workspace.hasGuest project

/-- Leaves of neighbours that spell one path only the first. -/
def dropRepeats : List Path → List Path
  | [] => []
  | p :: rest => p :: dropRepeatsAfter p rest
where
  dropRepeatsAfter (p : Path) : List Path → List Path
    | [] => []
    | q :: rest =>
      if Path.Same p q then dropRepeatsAfter p rest else q :: dropRepeatsAfter q rest

def guestFilesBelow (fs : Files) (roots : List Path) (extensions : List String) : List Path :=
  let found := (roots.filter fs.isDirectory).flatMap fun root =>
    (fs.scan root fun p => p.hasExtension extensions).map (·.path)
  dropRepeats (found.mergeSort Path.le)

def guestFiles (m : ProjectModel) (fs : Files) (project : String) (extensions : List String) :
    Except RootsError (List Path) := do
  if m.hasGuest project then
    return guestFilesBelow fs (← m.roots project).source extensions
  else return []

end ProjectModel

end ClasspathSymbols
