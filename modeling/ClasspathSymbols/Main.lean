import ClasspathSymbols.CommandLine

/-!
# The program

Loads the workspace file and everything below the roots of its projects, and runs the command line
on that. Links are not followed inside of a root.
-/
namespace ClasspathSymbols.Program

partial def load (fs : Files) (p : Path) : IO Files := do
  let there := (← IO.currentDir) / p.text
  if p.text = "" then return fs
  else if ← there.isDir then
    (← there.readDir).foldlM (fun fs e => do
      match (← e.path.symlinkMetadata).type with
      | .dir | .file => load fs (p.join e.fileName)
      | _ => return fs) (fs.makeDirectory (fs.locate p))
  else if ← there.pathExists then
    return fs.write (fs.locate p) (← IO.FS.readBinFile there)
  else return fs

def loadIgnoreFiles (fs : Files) (p : Path) : IO Files :=
  (Files.downTo (fs.locate p).dropLast).foldlM (fun fs l =>
    load fs ⟨"/" ++ "/".intercalate (l ++ [".ignore"])⟩) fs

def loadRoot (fs : Files) (p : Path) : IO Files := do loadIgnoreFiles (← load fs p) p

def rootsOf (w : Workspace) : List Path :=
  w.projects.flatMap fun p => p.roots.boot ++ p.roots.source ++ p.roots.compile

def loadSetting (arguments : List String) : IO CommandLine.Setting := do
  let here := (Path.mk (← IO.currentDir).toString).components.filterMap fun
    | .name text => some text
    | _ => none
  let environment : Environment := {
    workspace := ← IO.getEnv Config.workspaceVariable
    configHome := ← IO.getEnv "XDG_CONFIG_HOME"
    home := ← IO.getEnv "HOME"
    accountHome := "/" }
  let timeoutVariable ← IO.getEnv Config.timeoutVariable
  let setting : CommandLine.Setting := ⟨.emptyAt here, environment, timeoutVariable, 0⟩
  match Arguments.invocation? arguments with
  | none => return setting
  | some i =>
    let file := CommandLine.workspaceFile setting i
    let files ← load setting.files file
    match CommandLine.readWorkspace files file with
    | .error _ => return { setting with files }
    | .ok w => return { setting with files := ← (rootsOf w).foldlM loadRoot files }

def run (arguments : List String) : IO UInt32 := do
  let setting ← loadSetting arguments
  let start ← IO.monoMsNow
  let code := (CommandLine.run setting arguments).exitCode
  let stop ← IO.monoMsNow
  match CommandLine.run { setting with elapsed := stop - start } arguments with
  | .printed v => IO.println v.pretty
  | .failed e => IO.eprintln e.line
  | .misused => IO.eprintln "error: these arguments make no command"
  return code.toUInt32

end ClasspathSymbols.Program

def main (arguments : List String) : IO UInt32 := ClasspathSymbols.Program.run arguments
