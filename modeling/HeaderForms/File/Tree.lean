-- SUMMARY: File trees in memory.
import HeaderForms.File.System

/-!
# File trees

A directory of files in memory, and the file system that has it as its working directory. A path is
walked from there: an empty component and `.` stay in a directory, and `..` goes back to the one
above. Nothing lies outside the tree, so an absolute path leads nowhere.
-/

namespace HeaderForms

inductive FileTree where
  /-- A file with its text, which is missing when its bytes are no text. -/
  | file (text : Option String)
  | dir (entries : List (String × FileTree))

namespace FileTree

def empty : FileTree :=
  .dir []

/-! ## Building -/

/-- Changes the entry of a name, which is an empty directory if it is new. -/
def alter (name : String) (change : FileTree → FileTree) :
    List (String × FileTree) → List (String × FileTree)
  | [] => [(name, change empty)]
  | (other, tree) :: rest =>
    if other = name then (other, change tree) :: rest
    else (other, tree) :: alter name change rest

/-- Puts a tree under a path and makes the directories above it. -/
def insertAt (tree : FileTree) : List String → FileTree → FileTree
  | [], _ => tree
  | name :: names, .dir entries => .dir (alter name (insertAt tree names) entries)
  | _ :: _, .file text => .file text

def components (path : String) : List String :=
  (path.toList.splitOn '/').map String.ofList

def insert (root : FileTree) (path : String) (tree : FileTree) : FileTree :=
  insertAt tree ((components path).filter fun name => name ≠ "" && name ≠ ".") root

/-! ## Walking -/

/-- What a path leads to from `here`, the directories above which are `above`. -/
def walk (above : List FileTree) (here : FileTree) : List String → Option FileTree
  | [] => some here
  | name :: names =>
    match here with
    | .file _ => none
    | .dir entries =>
      if name = "" || name = "." then walk above here names
      else if name = ".." then
        match above with
        | parent :: above => walk above parent names
        | [] => none
      else (entries.lookup name).bind fun tree => walk (here :: above) tree names

def find? (root : FileTree) (path : String) : Option FileTree :=
  if path.isEmpty || path.toList.head? == some '/' then none
  else walk [] root (components path)

def isFile : FileTree → Bool
  | .file _ => true
  | .dir _ => false

def isDir : FileTree → Bool
  | .file _ => false
  | .dir _ => true

def names : FileTree → List String
  | .file _ => []
  | .dir entries => entries.map (·.1)

def content : FileTree → Except FileFailure String
  | .file (some text) => .ok text
  | .file none => .error .notText
  | .dir _ => .error (.unavailable "Is a directory (os error 21)")

/-- The file system with the tree as its working directory. -/
def fileSystem (root : FileTree) : FileSystem Id where
  isFile path := (root.find? path).any isFile
  isDir path := (root.find? path).any isDir
  read path :=
    match root.find? path with
    | some tree => tree.content
    | none => .error (.unavailable "No such file or directory (os error 2)")
  entries path := ((root.find? path).map names).getD []

end FileTree

end HeaderForms
