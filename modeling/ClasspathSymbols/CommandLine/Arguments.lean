import ClasspathSymbols.Config

/-!
# Arguments

The options come first, then a command and its own arguments. Where the command is left out, what
stands in its place is the name of a type. Everything that is no sound command line is refused
without a reason.
-/
namespace ClasspathSymbols.Arguments

def commandWords : List String :=
  ["type", "package", "binary-name", "deprecated", "owner", "simple-name", "packages",
    "guest-files", "stats", "help"]

def valuedOptions : List String := ["--workspace", "--project", "-p", "--timeout-ms"]

def isDashed (argument : String) : Bool := argument.toList.head? = some '-'

def withCommand : List String → List String
  | [] => []
  | word :: rest => if commandWords.contains word then word :: rest else "type" :: word :: rest

def supplyCommand : List String → List String
  | [] => []
  | "--" :: rest => "--" :: withCommand rest
  | [option] => if isDashed option then [option] else withCommand [option]
  | option :: value :: rest =>
    if valuedOptions.contains option then option :: value :: supplyCommand rest
    else if isDashed option then option :: supplyCommand (value :: rest)
    else withCommand (option :: value :: rest)

def supplyCommandAfterName : List String → List String
  | [] => []
  | program :: rest => program :: supplyCommand rest

structure Options where
  workspace : Option String
  project : Option String
  timeout : Option Nat
  deriving DecidableEq, Repr

inductive Command where
  | type (name : String)
  | package (name : String)
  | binaryName (name : String)
  | deprecated (name : String) (isPackage : Bool)
  | owner (name : String) (isPackage : Bool)
  | simpleName (name : String)
  | packages (start : Option String)
  | guestFiles
  | stats
  deriving DecidableEq, Repr

inductive OptionKey where
  | workspace | project | timeout
  deriving DecidableEq, Repr

def OptionKey.ofName? : String → Option OptionKey
  | "--workspace" => some .workspace
  | "--project" => some .project
  | "--timeout-ms" => some .timeout
  | _ => none

def Options.set (o : Options) (key : OptionKey) (value : String) : Option Options :=
  match key with
  | .workspace =>
    if o.workspace.isSome ∨ value = "" then none else some { o with workspace := some value }
  | .project => if o.project.isSome then none else some { o with project := some value }
  | .timeout =>
    if o.timeout.isSome then none
    else match readNumber value.toList with
      | .ok n => some { o with timeout := some n }
      | .error _ => none

def splitEquals (argument : String) : Option (String × String) :=
  match argument.toList.dropWhile (· ≠ '=') with
  | [] => none
  | _ :: value =>
    some (String.ofList (argument.toList.takeWhile (· ≠ '=')), String.ofList value)

def option? (argument : String) : Option (OptionKey × Option String) :=
  match argument.toList with
  | ['-', 'p'] => some (.project, none)
  | '-' :: 'p' :: '=' :: value => some (.project, some (String.ofList value))
  | '-' :: 'p' :: value => some (.project, some (String.ofList value))
  | _ =>
    match splitEquals argument with
    | some (name, value) => (OptionKey.ofName? name).map (·, some value)
    | none => (OptionKey.ofName? argument).map (·, none)

/-- Whether an argument can be the value of an option, or of a command before two dashes. -/
def isValue (argument : String) : Bool := !isDashed argument || argument = "-"

def readOptions (o : Options) : List String → Option (Options × String × List String)
  | [] => none
  | [argument] =>
    if isDashed argument then none else some (o, argument, [])
  | argument :: next :: rest =>
    if !isDashed argument then some (o, argument, next :: rest)
    else match option? argument with
      | none => none
      | some (key, some value) => (o.set key value).bind (readOptions · (next :: rest))
      | some (key, none) =>
        if isValue next then (o.set key next).bind (readOptions · rest) else none

/-- The arguments of a command: whether the flag for packages is set, and the others. -/
structure Operands where
  isPackage : Bool
  values : List String
  deriving DecidableEq, Repr

/-- Two dashes end the flags. -/
def readOperands : List String → Option Operands
  | [] => some ⟨false, []⟩
  | "--" :: rest => some ⟨false, rest⟩
  | "--package" :: rest => do
    let o ← readOperands rest
    if o.isPackage then none else some { o with isPackage := true }
  | argument :: rest => do
    let o ← readOperands rest
    if isValue argument then some { o with values := argument :: o.values } else none

def command? (word : String) (o : Operands) : Option Command :=
  match word, o with
  | "type", ⟨false, [name]⟩ => some (.type name)
  | "package", ⟨false, [name]⟩ => some (.package name)
  | "binary-name", ⟨false, [name]⟩ => some (.binaryName name)
  | "deprecated", ⟨isPackage, [name]⟩ => some (.deprecated name isPackage)
  | "owner", ⟨isPackage, [name]⟩ => some (.owner name isPackage)
  | "simple-name", ⟨false, [name]⟩ => some (.simpleName name)
  | "packages", ⟨false, []⟩ => some (.packages none)
  | "packages", ⟨false, [start]⟩ => some (.packages (some start))
  | "guest-files", ⟨false, []⟩ => some .guestFiles
  | "stats", ⟨false, []⟩ => some .stats
  | _, _ => none

structure Invocation where
  options : Options
  command : Command
  deriving DecidableEq, Repr

def invocation? (arguments : List String) : Option Invocation := do
  let (options, word, rest) ← readOptions ⟨none, none, none⟩ (supplyCommand arguments)
  let command ← command? word (← readOperands rest)
  return ⟨options, command⟩

end ClasspathSymbols.Arguments
