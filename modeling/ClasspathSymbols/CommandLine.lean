import ClasspathSymbols.CommandLine.Arguments
import ClasspathSymbols.CommandLine.ClassName
import ClasspathSymbols.IndexCache.Owner
import ClasspathSymbols.Json.Printer
import ClasspathSymbols.Query.Json
import ClasspathSymbols.Workspace.Json

/-!
# The command line

A run reads its arguments, the configuration and the workspace, chooses a project, and prints the
answer as JSON. Of several faults the first in this order is told.
-/
namespace ClasspathSymbols.CommandLine

open Arguments (Command Invocation)

inductive Failure where
  | setting (e : Config.VariableError)
  | unreadableWorkspace (file : Path)
  | badWorkspace (file : Path)
  | undefinedProject (name : String)
  | noSoleProject
  | unavailable (e : IndexUnavailable)
  | noGuestFiles (project : String)
  deriving DecidableEq, Repr

def Failure.message : Failure → String
  | .setting e => e.summary
  | .unreadableWorkspace file => s!"Failed to read workspace file: {file.text}"
  | .badWorkspace file => s!"Failed to parse workspace file: {file.text}"
  | .undefinedProject name =>
    s!"Project {Text.Quoted.encode name} is not defined in the workspace"
  | .noSoleProject =>
    "The workspace defines more than one project (or none); use --project to pick one"
  | .unavailable e => e.message
  | .noGuestFiles project => s!"Failed to list guest files of {project}"

def Failure.line (e : Failure) : String :=
  "Error: " ++ String.ofList (e.message.toList.takeWhile (· ≠ '\n'))

inductive Outcome where
  | misused
  | failed (e : Failure)
  | printed (v : Json)

def Outcome.exitCode : Outcome → Nat
  | .misused => 2
  | .failed _ => 1
  | .printed _ => 0

structure Setting where
  files : Files
  environment : Environment
  timeoutVariable : Option String
  /-- How many milliseconds building an index takes, as far as that is known. -/
  elapsed : Nat

structure Desk where
  files : Files
  config : Config
  workspaceFile : Path
  workspace : Workspace
  project : Option String
  elapsed : Nat

namespace Desk

def model (d : Desk) : ProjectModel := .ofWorkspace d.workspace

def access (d : Desk) : IndexCache.Access := ⟨⟨d.files, d.model, []⟩, [], d.config.queryTimeout⟩

def chosen (d : Desk) : Except Failure String :=
  match d.project with
  | some name =>
    if (d.workspace.project? name).isSome then .ok name else .error (.undefinedProject name)
  | none =>
    match d.workspace.sole? with
    | some name => .ok name
    | none => .error .noSoleProject

def ask {α : Type} (d : Desk) (project : String) (f : Index → α) : Except Failure α :=
  (IndexCache.empty.ask d.access project f).1.mapError .unavailable

def lookup (d : Desk) (name : String) (f : Index → Json) : Except Failure Json := do
  let project ← d.chosen
  let value ← d.ask project f
  return .object [("project", .string project), ("name", .string name), ("value", value)]

def placeJson : Place → Json
  | .source file => .object [("kind", .string "source"), ("path", .string file.text)]
  | .archive archive entry => .object
    [("kind", .string "archive"), ("archive", .string archive.text), ("entry", .string entry)]
  | .directory file => .object [("kind", .string "directory"), ("path", .string file.text)]

def typeAnswer (d : Desk) (name : String) : Except Failure Json := do
  let project ← d.chosen
  let name := ClassName.normalize name
  let (symbol, place) ← d.ask project fun ix =>
    let symbol := ix.findType name
    (symbol, symbol.bind ix.place?)
  return .object [("project", .string project), ("name", .string name),
    ("symbol", .ofOption (symbol.map Symbol.toJson)),
    ("location", .ofOption (place.map placeJson))]

def symbolOf (raw : String) (isPackage : Bool) : Symbol :=
  ⟨ClassName.normalize raw, if isPackage then .package else .type⟩

/-- The project that is asked for need not exist here. -/
def deprecatedAnswer (d : Desk) (symbol : Symbol) : Except Failure Json := do
  let candidates := match d.project with
    | some name => [name]
    | none => d.workspace.openProjects
  let deprecated ← (IndexCache.empty.deprecatedInOwner d.access symbol candidates).1.mapError
    .unavailable
  return .object [("symbol", symbol.toJson), ("deprecated", .bool deprecated)]

def ownerAnswer (d : Desk) (symbol : Symbol) : Except Failure Json := do
  let owner ← (IndexCache.empty.owner d.access symbol d.workspace.openProjects).1.mapError
    .unavailable
  return .object [("symbol", symbol.toJson), ("owner", .ofOption (owner.map .string))]

def guestFilesAnswer (d : Desk) : Except Failure Json := do
  let project ← d.chosen
  let extensions := d.config.guestExtensions
  let files ← (d.model.guestFiles d.files project extensions).mapError fun _ =>
    .noGuestFiles project
  return .object [("project", .string project), ("name", .string (",".intercalate extensions)),
    ("value", .strings (files.map (·.text)))]

def countsJson (n : CacheCounts) : Json :=
  .object [("indexed_projects", .ofNat n.indexedProjects), ("builds", .ofNat n.builds),
    ("failed_builds", .ofNat n.failedBuilds), ("hits", .ofNat n.hits)]

def statsAnswer (d : Desk) : Except Failure Json := do
  let project ← d.chosen
  let (r, cache) := IndexCache.empty.task d.access project
  let ix ← r.mapError .unavailable
  return .object [("workspace", .string d.workspaceFile.text), ("project", .string project),
    ("fingerprint", .string ix.classpath.fingerprint),
    ("search_roots", .ofNat ix.classpath.search.length),
    ("source_roots", .ofNat ix.classpath.source.length),
    ("types", .ofNat ix.index.typeCount),
    ("packages", .ofNat (ix.index.packagesIn "").length),
    ("duration_ms", .ofNat d.elapsed), ("cache", countsJson cache.counts)]

def answer (d : Desk) : Command → Except Failure Json
  | .type name => d.typeAnswer name
  | .package name => d.lookup name fun ix => .ofOption ((ix.findPackage name).map Symbol.toJson)
  | .binaryName name =>
    let name := ClassName.normalize name
    d.lookup name fun ix => .ofOption ((ix.binaryName name).map .string)
  | .deprecated name isPackage => d.deprecatedAnswer (symbolOf name isPackage)
  | .owner name isPackage => d.ownerAnswer (symbolOf name isPackage)
  | .simpleName name =>
    let simpleName := String.ofList (Text.trim name.toList)
    d.lookup name fun ix => .strings (ix.withSimpleName simpleName)
  | .packages start =>
    let start := start.getD ""
    d.lookup start fun ix => .strings (ix.packagesIn start)
  | .guestFiles => d.guestFilesAnswer
  | .stats => d.statsAnswer

end Desk

def readWorkspace (fs : Files) (file : Path) : Except Failure Workspace := do
  let content ← (fs.read file).mapError fun _ => .unreadableWorkspace file
  match Text.Utf8.decode? content.data.toList with
  | none => throw (.unreadableWorkspace file)
  | some text => (Workspace.ofText (String.ofList text)).mapError fun _ => .badWorkspace file

def workspaceFile (s : Setting) (i : Invocation) : Path :=
  s.environment.workspacePath i.options.workspace

def desk (s : Setting) (i : Invocation) : Except Failure Desk := do
  let config ← (Config.resolve s.timeoutVariable i.options.timeout).mapError .setting
  let file := workspaceFile s i
  let workspace ← readWorkspace s.files file
  return ⟨s.files, config, file, workspace, i.options.project, s.elapsed⟩

def run (s : Setting) (arguments : List String) : Outcome :=
  match Arguments.invocation? arguments with
  | none => .misused
  | some i =>
    match desk s i >>= fun d => d.answer i.command with
    | .ok v => .printed v
    | .error e => .failed e

end ClasspathSymbols.CommandLine
