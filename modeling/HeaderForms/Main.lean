-- SUMMARY: The command.
import HeaderForms.CommandLine.Run

/-!
# The command

The files of the machine as a file system, and the entry point.
-/

namespace HeaderForms

/-- The kind of what a path leads to, if it leads to anything. -/
def fileKind? (path : String) : IO (Option IO.FS.FileType) := do
  try
    return some (← (← IO.FS.realPath path).metadata).type
  catch _ => return none

/-- Why reading a file failed, in the words of the operating system. -/
def failureReason : IO.Error → String
  | .noFileOrDirectory _ code details => systemError details code
  | .permissionDenied _ code details => systemError details code
  | .inappropriateType _ code details => systemError details code
  | error => error.toString
where
  systemError (details : String) (code : UInt32) : String :=
    details ++ " (os error " ++ toString code ++ ")"

def machineFiles : FileSystem IO where
  isFile path := do
    match ← fileKind? path with
    | some .file => return true
    | _ => return false
  isDir path := do
    match ← fileKind? path with
    | some .dir => return true
    | _ => return false
  read path := do
    try
      match String.fromUTF8? (← IO.FS.readBinFile path) with
      | some text => return .ok text
      | none => return .error .notText
    catch error => return .error (.unavailable (failureReason error))
  entries path := do
    if path.isEmpty then return []
    try
      return (← (← IO.FS.realPath path).readDir).toList.map (·.fileName)
    catch _ => return []

end HeaderForms

open HeaderForms in
def main (args : List String) : IO UInt32 := do
  let output ← CommandLine.run machineFiles (← IO.getEnv "HDRINC_LIBS") args
  IO.print (CommandLine.textOfLines output.stdout)
  IO.eprint (CommandLine.textOfLines output.stderr)
  return UInt32.ofNat output.exitCode
