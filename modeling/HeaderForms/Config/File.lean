-- SUMMARY: Reading a configuration from its file.
import HeaderForms.Config
import HeaderForms.File.System

/-!
# Configuration files

A configuration file that is missing, unreadable or no configuration is an error that names the
file.
-/

namespace HeaderForms

inductive ConfigError where
  | unread (path : String)
  | malformed (path : String)
deriving DecidableEq, Repr

namespace ConfigError

def message : ConfigError → String
  | .unread path => "cannot read config file " ++ path
  | .malformed path => "invalid config file " ++ path

/-- The name under which a tool can look the kind of error up. -/
def code : ConfigError → String
  | .unread _ => "hdrinc::config::io"
  | .malformed _ => "hdrinc::config::yaml"

end ConfigError

/-- The configuration in a file. -/
def Config.load {m : Type → Type} [Monad m] (files : FileSystem m) (path : String) :
    m (Except ConfigError Config) := do
  match ← files.read path with
  | .error _ => return .error (.unread path)
  | .ok text =>
    match Config.ofText? text with
    | some config => return .ok config
    | none => return .error (.malformed path)

end HeaderForms
