import Depot.Text.Split

/-!
Paths as text. A path is absolute when it begins with a slash. Repeated slashes, a slash at the end
and `.` between other components say nothing, so they are not components; a `.` that begins a
relative path is one, and so is every `..`.
-/
namespace Depot.Path

/-- The path begins with a slash. -/
def isAbsolute (path : String) : Bool :=
  path.toList.head? == some '/'

/-- `path` continued by `rest`: an absolute `rest` replaces it, and otherwise they are joined by a
slash, unless `path` is empty or ends in one. -/
def join (path rest : String) : String :=
  if isAbsolute rest then rest
  else if path.toList = [] ∨ path.toList.getLast? = some '/' then path ++ rest
  else path ++ "/" ++ rest

/-- The components of a path. -/
def components (path : String) : List (List Char) :=
  let pieces := Text.pieces '/' path.toList
  (if pieces.head? = some ['.'] then [['.']] else []) ++
    pieces.filter fun p => p ≠ [] ∧ p ≠ ['.']

/-- The path of some components. -/
def ofComponents (absolute : Bool) (components : List (List Char)) : String :=
  String.ofList ((if absolute then ['/'] else []) ++ (components.intersperse ['/']).flatten)

/-- The path without its last component; none for a path without components. -/
def parent? (path : String) : Option String :=
  if components path = [] then none
  else some (ofComponents (isAbsolute path) (components path).dropLast)

/-- The last component, if it is a name. -/
def fileName? (path : String) : Option String :=
  match (components path).getLast? with
  | none => none
  | some last => if last = ['.'] ∨ last = ['.', '.'] then none else some (String.ofList last)

/-- The path with its file name replaced; a path that ends in no name is continued instead. -/
def withFileName (path name : String) : String :=
  match fileName? path with
  | some _ => join ((parent? path).getD "") name
  | none => join path name

end Depot.Path
