import Coalesce.Config.Wire
import Coalesce.Url.Parse
import Coalesce.Yaml.Format

/-!
# Configurations from texts and files

* `Config.ofJson`, `Config.ofYaml`     a validated configuration from a text;
* `Config.ofFile`                      one from a file: JSON if its name says so, YAML otherwise.

Files are seen through a function from paths to bytes, so that any store of files will do.
-/

namespace Coalesce

/-- Why a file cannot be read. -/
inductive FileFault where
  | missing
  | directory
  | insideFile
  | nameTooLong
  | badName
  | notText
  deriving DecidableEq

def FileFault.text : FileFault → String
  | .missing => "No such file or directory (os error 2)"
  | .directory => "Is a directory (os error 21)"
  | .insideFile => "Not a directory (os error 20)"
  | .nameTooLong => "File name too long (os error 36)"
  | .badName => "file name contained an unexpected NUL byte"
  | .notText => "stream did not contain valid UTF-8"

/-- The bytes behind a path. -/
abbrev Files := String → Except FileFault (List UInt8)

/-- What stands behind the last point of a path's last name; a point in front does not count. -/
def fileExtension? (path : String) : Option String :=
  let name := (path.toList.reverse.takeWhile (· ≠ '/')).reverse
  let ending := (name.reverse.takeWhile (· ≠ '.')).reverse
  if ending.length + 1 < name.length then some (String.ofList ending) else none

namespace Config

/-- A configuration as it was read, if there is nothing wrong with it. -/
def checked (read : Except Decode.Fault Config) : Except Error Config := do
  let config ← read.mapError .serialization
  config.validate Url.fault?
  return config

def ofJson (text : String) : Except Error Config := checked (Json.readText (read Json.format) text)

def ofYaml (text : String) : Except Error Config := checked (Yaml.readText (read Yaml.format) text)

/-- The text of a file. -/
def fileText (files : Files) (path : String) : Except FileFault String := do
  match Text.ofBytes? (← files path) with
  | some text => return text
  | none => .error .notText

/-- A validated configuration from a file. -/
def ofFile (files : Files) (path : String) : Except Error Config :=
  match fileText files path with
  | .error fault => .error (.configuration (.unreadable path fault.text))
  | .ok text => if fileExtension? path = some "json" then ofJson text else ofYaml text

end Config

end Coalesce
