-- SUMMARY: Paths as text.

/-!
# Paths

A path is text with slashes between its components. An absolute path starts with one.
-/

namespace HeaderForms.Path

def isAbsolute (path : String) : Bool :=
  path.toList.head? == some '/'

/-- The path of a name in a directory. An absolute name stands for itself, and in the empty
directory every name does. -/
def join (dir name : String) : String :=
  if isAbsolute name || dir.isEmpty then name
  else if dir.toList.getLast? == some '/' then dir ++ name
  else dir ++ "/" ++ name

end HeaderForms.Path
