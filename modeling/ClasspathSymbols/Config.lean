import ClasspathSymbols.Path
import ClasspathSymbols.Text.Blank
import ClasspathSymbols.Text.Quoted

/-!
# Configuration

What can be set: the query timeout in milliseconds, the extensions of guest files, and whether
roots are cataloged in parallel. An environment variable may set the timeout, and a flag may
override that.
-/
namespace ClasspathSymbols

structure Config where
  queryTimeout : Nat
  guestExtensions : List String
  parallelIndex : Bool
  deriving DecidableEq, Repr

def wordBound : Nat := 1 <<< 64

inductive NumberError where
  | empty | badDigit | tooLarge
  deriving DecidableEq, Repr

def NumberError.message : NumberError → String
  | .empty => "cannot parse integer from empty string"
  | .badDigit => "invalid digit found in string"
  | .tooLarge => "number too large to fit in target type"

/-- Reads on after the digits of `n`; the first digit that is none or is too much counts. -/
def readDigits (n : Nat) : List Char → Except NumberError Nat
  | [] => .ok n
  | c :: rest =>
    if !c.isDigit then .error .badDigit
    else
      let n := 10 * n + (c.toNat - '0'.toNat)
      if wordBound ≤ n then .error .tooLarge else readDigits n rest

def readNumber (text : List Char) : Except NumberError Nat :=
  match text with
  | [] => .error .empty
  | '+' :: c :: rest => readDigits 0 (c :: rest)
  | text => readDigits 0 text

inductive TimeoutError where
  | number (e : NumberError)
  | notPositive
  deriving DecidableEq, Repr

def TimeoutError.message : TimeoutError → String
  | .number e => e.message
  | .notPositive => "timeout must be positive"

def readTimeout (text : String) : Except TimeoutError Nat :=
  match readNumber (Text.trim text.toList) with
  | .error e => .error (.number e)
  | .ok 0 => .error .notPositive
  | .ok n => .ok n

namespace Config

def default : Config := ⟨30000, ["kt", "kts"], true⟩

def timeoutVariable : String := "CLASSPATH_BRIDGE_TIMEOUT_MS"

def workspaceVariable : String := "CLASSPATH_BRIDGE_WORKSPACE"

/-- The value of the environment variable for the timeout, and what is wrong with it. -/
structure VariableError where
  value : String
  cause : TimeoutError
  deriving DecidableEq, Repr

def VariableError.summary (e : VariableError) : String :=
  s!"Invalid {timeoutVariable} value: {Text.Quoted.encode e.value}"

def VariableError.message (e : VariableError) : String := s!"{e.summary}: {e.cause.message}"

/-- The defaults, then the environment variable, then the flag. The variable has to be sound even
where the flag overrides it. -/
def resolve (value : Option String) (flag : Option Nat) : Except VariableError Config := do
  let timeout ← match value with
    | none => pure none
    | some text => ((readTimeout text).map some).mapError (⟨text, ·⟩)
  return { default with queryTimeout := (flag.or timeout).getD default.queryTimeout }

/-- The configuration with a timeout of so many nanoseconds, cut to whole milliseconds and to 64
bits. -/
def withTimeout (c : Config) (nanoseconds : Nat) : Config :=
  { c with queryTimeout := min (nanoseconds / 1000000) (wordBound - 1) }

end Config

structure Environment where
  workspace : Option String
  configHome : Option String
  home : Option String
  /-- The home directory that the account has where no variable names one. -/
  accountHome : String
  deriving Repr

namespace Environment

def homeDirectory (e : Environment) : String :=
  match e.home with
  | none | some "" => e.accountHome
  | some home => home

/-- The directory for configuration files; a relative one in the environment does not count. -/
def configDirectory (e : Environment) : Path :=
  match e.configHome with
  | some dir => if (Path.mk dir).IsAbsolute then ⟨dir⟩ else (Path.mk e.homeDirectory).join ".config"
  | none => (Path.mk e.homeDirectory).join ".config"

/-- The workspace file: the flag, then the environment, then the place for configuration. -/
def workspacePath (e : Environment) (flag : Option String) : Path :=
  match flag.or e.workspace with
  | some p => ⟨p⟩
  | none => (e.configDirectory.join "classpath-bridge").join "workspace.json"

end Environment

def durationText (milliseconds : Nat) : String :=
  if milliseconds = 0 then "0ns"
  else if milliseconds < 1000 then s!"{milliseconds}ms"
  else
    let rest := milliseconds % 1000
    let digits := [rest / 100, rest / 10 % 10, rest % 10].map Nat.digitChar
    let fraction := (digits.reverse.dropWhile (· = '0')).reverse
    let point := if fraction = [] then [] else ['.']
    toString (milliseconds / 1000) ++ String.ofList (point ++ fraction) ++ "s"

end ClasspathSymbols
