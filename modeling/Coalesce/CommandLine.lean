import Coalesce.Config.File
import Coalesce.Header.Comparable

/-!
# The command line

* `CommandLine.run`    what a list of arguments comes to: what is printed, what is complained about,
                       and whether it failed.

`validate` reports on every target of a configuration file, `resolve` prints the settings of all
targets as JSON.  Files are seen through a function, so a run is a value.
-/

namespace Coalesce

/-- What a run of the command line comes to. -/
structure CommandLine where
  failed : Bool := false
  printed : String := ""
  complaints : String := ""
  deriving DecidableEq

namespace CommandLine

def version : String := "0.4.0"

def usage : String := "batching-config: gateway batching configuration checker

USAGE:
    batching-config <COMMAND> <FILE> [--strict]

COMMANDS:
    validate    Validate the file and list every clamped option
    resolve     Print the resolved batching configuration per upstream
    version     Print version
    help        Print this message

OPTIONS:
    --strict    Treat out-of-range batching options as errors
"

/-- Text on lines of its own. -/
def lines (ls : List String) : String := String.join (ls.map (· ++ "\n"))

def isFlag (arg : String) : Bool := Header.startsWith arg "--"

/-- a run that failed, after what it printed -/
def complain (printed : String) (text : String) : CommandLine :=
  ⟨true, printed, lines ["error: " ++ text]⟩

/-- the file that the arguments name -/
def path? (args : List String) : Option String := args.find? fun a => !isFlag a

/-- Reads the configuration that the arguments name. -/
def load (files : Files) (args : List String) : Except String Config :=
  match path? args with
  | none => .error "missing configuration file argument"
  | some path =>
    match Config.ofFile files path with
    | .ok config =>
      .ok (if args.contains "--strict" then { config with strict := true } else config)
    | .error e => .error ("loading " ++ path ++ ": " ++ e.message)

/-! ## reports -/

/-- The lines about a target, and whether its options are refused. -/
def report (config : Config) (t : TargetConfig) : List String × Bool :=
  match t.batching with
  | none => ([t.name ++ ": unbatched"], false)
  | some options =>
    let changes := options.resolve.2
    let (found, refused) := match config.resolveBatching t with
      | .error e => ([t.name ++ ": " ++ e.message], true)
      | .ok _ =>
        if changes.isEmpty then ([t.name ++ ": ok"], false)
        else
          ((t.name ++ ": ok with adjustments") :: changes.map fun a => "    " ++ a.describe, false)
    let note := "    note: indiscriminate batching mixes callers' headers in one upstream call"
    (found ++ (if options.strategy.needsOptIn then [note] else []), refused)

/-- Reports on every target. -/
def validate (config : Config) : CommandLine :=
  let reports := config.targets.map (report config)
  let printed := lines (reports.flatMap (·.1))
  let refused := (reports.filter (·.2)).length
  if refused = 0 then { printed }
  else complain printed (toString refused ++ " upstream(s) failed validation")

/-- What is written about a target. -/
def resolved (config : Config) (t : TargetConfig) : Except Error Json := do
  let settings ← config.resolveBatching t
  let changes := (t.batching.map fun o => o.resolve.2).getD []
  return .ofMembers [("name", .string t.name), ("url", .string t.url),
    ("timeout_ms", Json.ofOption .nat t.timeoutMillis),
    ("batching", Json.ofOption Settings.toJson settings),
    ("adjustments", .array (changes.map Adjustment.toJson))]

/-- Writes the settings of all targets. -/
def resolve (config : Config) : CommandLine :=
  match config.targets.mapM (resolved config) with
  | .error e => complain "" e.message
  | .ok targets =>
    { printed := lines [(Json.ofMembers [("deadline_padding_ms", .int config.padding),
        ("strict_batching", .bool config.strict), ("upstreams", .array targets)]).pretty] }

/-! ## commands -/

/-- A command on the configuration that the arguments name. -/
def withConfig (files : Files) (args : List String) (command : Config → CommandLine) :
    CommandLine :=
  match load files args with
  | .ok config => command config
  | .error text => complain "" text

def run (files : Files) : List String → CommandLine
  | [] => { failed := true, printed := usage }
  | command :: args =>
    if command = "validate" then withConfig files args validate
    else if command = "resolve" then withConfig files args resolve
    else if ["version", "--version", "-V"].contains command then
      { printed := lines ["batching-config " ++ version] }
    else if ["help", "--help", "-h"].contains command then { printed := usage }
    else
      { failed := true, printed := usage, complaints := lines ["Unknown command: " ++ command, ""] }

end CommandLine

end Coalesce
