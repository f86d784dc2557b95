import AgsCli.Library.OrderedMap
import AgsCli.Protocol.Request
import AgsCli.Support.Strings

/-! # Recorded command and flags

What telemetry records of an argument vector: the leading command names and the flags, values
redacted unless the flag is on the allow list. The scan knows neither the command nor its flags. -/
namespace FlagCapture

open OrderedMap RequestTypes

def maxRoutingDepth : List String → Nat
  | first :: _ => if first = "workflow" ∨ first = "profile" then 2 else 3
  | [] => 3

def startsWithDash (token : String) : Bool := token.toList.head? = some '-'

def routingNames (commandPath : List String) : List String :=
  (commandPath.takeWhile fun token => !startsWithDash token).take (maxRoutingDepth commandPath)

def commandPathNames (commandPath : List String) : String :=
  Strings.join " " (routingNames commandPath)

def valueSafeFlags : List String :=
  ["--namespace", "-n", "--format", "--ui", "--user-id", "--client-id"]

def booleanFlags : List String :=
  ["--all", "--global", "--offline", "--validate-only", "--client-secret-stdin", "--dry-run",
    "--no-color", "--no-input", "--quiet", "-q", "--verbose", "-v", "--yes", "-y", "--skeleton",
    "--page-all", "--symbol-files", "--skip-script-validation", "--help", "-h", "--version", "-V"]

structure Capture where
  names : List String
  values : BTreeMap String String
  deriving DecidableEq

def Capture.default : Capture := ⟨[], .empty⟩

def doubleDash : List Char → Bool
  | '-' :: '-' :: _ => true
  | _ :: rest => doubleDash rest
  | [] => false

def looksLikeFlagName (name : List Char) : Bool :=
  !name.isEmpty && name.head? ≠ some '-' && name.getLast? ≠ some '-' && !doubleDash name &&
    name.all fun c => Strings.isAsciiLower c || c = '-'

/-- `split('=').next()`. -/
def namePart (s : List Char) : List Char := s.takeWhile (· ≠ '=')

def looksLikeFlag (token : String) : Bool :=
  match token.toList with
  | '-' :: '-' :: rest => looksLikeFlagName (namePart rest)
  | '-' :: rest =>
    match namePart rest with
    | [c] => Strings.isAsciiLower c || Strings.isAsciiUpper c
    | _ => false
  | _ => false

/-- `split_once('=')`, an absent value for a token without `=`. -/
def splitInline (token : String) : String × Option String :=
  match token.toList.dropWhile (· ≠ '=') with
  | [] => (token, none)
  | _ :: value => (String.ofList (namePart token.toList), some (String.ofList value))

def recorded (name value : String) : String :=
  if valueSafeFlags.contains name then value else "<redacted>"

namespace Capture

variable (c : Capture)

def named (name : String) : Capture :=
  if c.names.contains name then c else { c with names := c.names ++ [name] }

def valued (name value : String) : Capture :=
  { c with values := c.values.insert name (recorded name value) }

end Capture

/-- The loop of `extract_flags`: a flag that is not boolean takes the next token, whatever it is. -/
def extractFrom (c : Capture) : List String → Capture
  | [] => c
  | token :: rest =>
    if looksLikeFlag token then
      let name := (splitInline token).1
      match (splitInline token).2 with
      | some value => extractFrom ((c.named name).valued name value) rest
      | none =>
        if booleanFlags.contains name then extractFrom (c.named name) rest
        else
          match rest with
          | [] => c.named name
          | next :: rest => extractFrom ((c.named name).valued name next) rest
    else extractFrom c rest

def extractFlags (argv : List String) : Capture := extractFrom .default argv

def mergeGlobalFlags (c : Capture) (pairs : List (String × Option String)) : Capture :=
  pairs.foldl (fun c pair =>
    match pair.2 with
    | some value => (c.named pair.1).valued pair.1 value
    | none => c.named pair.1) c

inductive UiFlag
  | auto
  | plain
  | inline
  | fullscreen
  deriving DecidableEq

structure GlobalFlags where
  verbosity : Verbosity
  isNoInput : Bool
  isNoColor : Bool
  isAutoConfirmed : Bool
  format : Option OutputFormat
  ui : Option UiFlag
  «namespace» : Option String
  profile : Option String
  isDryRun : Bool
  isSkeleton : Bool
  timeout : Option Nat
  isPageAll : Bool
  pageLimitRaw : Option String
  output : Option OutputDestination

def formatText : OutputFormat → String
  | .human => "human"
  | .json => "json"

def uiText : UiFlag → String
  | .auto => "auto"
  | .plain => "plain"
  | .inline => "inline"
  | .fullscreen => "fullscreen"

def outputText : OutputDestination → String
  | .stdout => "-"
  | .file path => path

def switchPair (name : String) (isSet : Bool) : List (String × Option String) :=
  if isSet then [(name, none)] else []

def valuePair (name : String) (value : Option String) : List (String × Option String) :=
  value.toList.map fun v => (name, some v)

def GlobalFlags.telemetryPairs (f : GlobalFlags) : List (String × Option String) :=
  switchPair "--verbose" (f.verbosity = .verbose) ++ switchPair "--quiet" (f.verbosity = .quiet) ++
    switchPair "--no-input" f.isNoInput ++ switchPair "--no-color" f.isNoColor ++
    switchPair "--yes" f.isAutoConfirmed ++ valuePair "--format" (f.format.map formatText) ++
    valuePair "--ui" (f.ui.map uiText) ++ valuePair "--namespace" f.namespace ++
    valuePair "--profile" f.profile ++ switchPair "--dry-run" f.isDryRun ++
    switchPair "--skeleton" f.isSkeleton ++ valuePair "--timeout" (f.timeout.map toString) ++
    switchPair "--page-all" f.isPageAll ++ valuePair "--page-limit" f.pageLimitRaw ++
    valuePair "--output" (f.output.map outputText)

/-- The command path and the capture `gather_context` records. -/
def record (f : GlobalFlags) (remaining : List String) : String × Capture :=
  (commandPathNames remaining, mergeGlobalFlags (extractFlags remaining) f.telemetryPairs)

example : (extractFlags ["auth", "login", "--client-secret", "--my-secret", "--all", "x"]).names =
    ["--client-secret", "--all"] := by decide

end FlagCapture
