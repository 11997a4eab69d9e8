-- SUMMARY: Finding included files on a search path, and the directories of libraries.
import HeaderForms.Numeral
import HeaderForms.File.Path
import HeaderForms.File.System

/-!
# Resolving includes

A name is looked for in the directories of a search path, in order. A library is a directory below
one of the library roots, named for the library alone or with a version behind it. The first root
that has one decides; there the directory without a version comes first, and else the highest
version, compared number by number.
-/

namespace HeaderForms.Resolver

/-! ## Versions -/

/-- The numbers of a version, each below 2^64. -/
def version? (text : List Char) : Option (List Nat) :=
  (text.splitOn '.').mapM (Numeral.below? (Nat.pow 2 64) 10)

def versionLe : List Nat → List Nat → Bool
  | [], _ => true
  | _ :: _, [] => false
  | a :: as, b :: bs => a < b || (a = b && versionLe as bs)

/-- The version in the name of a directory of `app`. -/
def versionOf? (app name : String) : Option (List Nat) :=
  let front := app.toList ++ ['-']
  if front.isPrefixOf name.toList then version? (name.toList.drop front.length) else none

/-- The later of two candidates, where the second wins unless the first is higher. -/
def later (first second : List Nat × String) : List Nat × String :=
  if versionLe first.1 second.1 then second else first

def latest? : List (List Nat × String) → Option (List Nat × String)
  | [] => none
  | candidate :: rest => some (rest.foldl later candidate)

/-! ## Search -/

variable {m : Type → Type} [Monad m]

/-- The first of the paths that is a file. -/
def firstFile (files : FileSystem m) : List String → m (Option String)
  | [] => return none
  | path :: paths => do
    if ← files.isFile path then return some path else firstFile files paths

/-- The file that a name stands for. An absolute name is looked for nowhere else. -/
def resolve (files : FileSystem m) (searchPath : List String) (name : String) :
    m (Option String) :=
  firstFile files
    (if Path.isAbsolute name then [name] else searchPath.map (Path.join · name))

/-- The directories of a library below a root that name a version. -/
def candidates (files : FileSystem m) (root app : String) :
    List String → m (List (List Nat × String))
  | [] => return []
  | name :: names => do
    let path := Path.join root name
    let others ← candidates files root app names
    match versionOf? app name with
    | some version => return if ← files.isDir path then (version, path) :: others else others
    | none => return others

/-- The directory of a library below one root. -/
def libDirBelow (files : FileSystem m) (app root : String) : m (Option String) := do
  let exact := Path.join root app
  if ← files.isDir exact then return some exact
  return (latest? (← candidates files root app (← files.entries root))).map (·.2)

/-- The directory of a library. -/
def libDir (files : FileSystem m) (app : String) : List String → m (Option String)
  | [] => return none
  | root :: roots => do
    match ← libDirBelow files app root with
    | some dir => return some dir
    | none => libDir files app roots

end HeaderForms.Resolver
