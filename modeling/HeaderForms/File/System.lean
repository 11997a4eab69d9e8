-- SUMMARY: File systems: what a program may ask about the files around it.

/-!
# File systems

The questions that resolving and reading includes asks about files. They are asked in a monad, so
that the same program runs on the files of the machine and on a file tree in memory.
-/

namespace HeaderForms

/-- Why a file could not be read. -/
inductive FileFailure where
  | notText
  | unavailable (reason : String)
deriving DecidableEq, Repr

def FileFailure.message : FileFailure → String
  | .notText => "stream did not contain valid UTF-8"
  | .unavailable reason => reason

structure FileSystem (m : Type → Type) where
  isFile : String → m Bool
  isDir : String → m Bool
  /-- The text of a file. -/
  read : String → m (Except FileFailure String)
  /-- The names in a directory, none if there is no such directory. -/
  entries : String → m (List String)

end HeaderForms
