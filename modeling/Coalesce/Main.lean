import Coalesce.CommandLine

/-!
# The program

Runs the command line on the files of the system.
-/

namespace Coalesce

/-- The fault behind an error of the system. -/
def FileFault.ofSystem : IO.Error → FileFault
  | .noFileOrDirectory _ _ _ => .missing
  | .inappropriateType _ code _ => if code = 20 then .insideFile else .directory
  | _ => .badName

/-- The bytes of a file of the system. -/
def readSystem (path : String) : IO (Except FileFault (List UInt8)) := do
  try
    let content ← IO.FS.readBinFile path
    return .ok content.toList
  catch e => return .error (FileFault.ofSystem e)

end Coalesce

open Coalesce in
def main (args : List String) : IO UInt32 := do
  let content ← match CommandLine.path? (args.drop 1) with
    | some path => readSystem path
    | none => pure (.error .missing)
  let ran := CommandLine.run (fun _ => content) args
  IO.print ran.printed
  IO.eprint ran.complaints
  return if ran.failed then 1 else 0
