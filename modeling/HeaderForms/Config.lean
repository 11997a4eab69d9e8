-- SUMMARY: Configurations: where includes are looked for and how headers are told and read.
import HeaderForms.Text.Blank
import HeaderForms.Yaml.Parser

/-!
# Configurations

A configuration is read from a YAML mapping whose keys are the names of its settings. A setting that
is left out keeps its default. An unknown key, a key that occurs twice and a value of the wrong kind
are refused.
-/

namespace HeaderForms

structure Config where
  /-- The directories that includes are looked for in, in order. -/
  includePath : List String
  /-- The directories that hold library directories. -/
  libRoots : List String
  /-- The end of the names that are headers. -/
  headerSuffix : String
  /-- Whether typed records are read in the legacy encoding. -/
  legacyRecordTypes : Bool
deriving DecidableEq, Repr

namespace Config

def default : Config :=
  ⟨["."], [], ".hrl", false⟩

/-- The configuration with the setting of one key. -/
def set? (config : Config) (key : String) (value : Yaml) : Option Config :=
  match key with
  | "include_path" => value.texts?.map fun includePath => { config with includePath }
  | "lib_roots" => value.texts?.map fun libRoots => { config with libRoots }
  | "header_suffix" => value.text?.map fun headerSuffix => { config with headerSuffix }
  | "legacy_record_types" =>
    value.bool?.map fun legacyRecordTypes => { config with legacyRecordTypes }
  | _ => none

def ofEntries? (entries : List (String × Yaml)) : Option Config :=
  if (entries.map (·.1)).Nodup then
    entries.foldlM (fun config (key, value) => config.set? key value) default
  else none

/-- Reads a configuration. A blank text is the default one. -/
def ofText? (text : String) : Option Config := do
  if Text.isBlankText text.toList then return default
  ofEntries? (← (← Yaml.parse? text).entries?)

def isHeader (config : Config) (name : String) : Bool :=
  config.headerSuffix.toList.isSuffixOf name.toList

end Config

end HeaderForms
