/-!
# File paths

Names with slashes between them. A name of one dot stands for nothing, unless the path begins with
it.
-/

namespace Nodecast.Log

/-- A path from its end, without what stands for nothing there. -/
def trimBack : List Char → List Char
  | '/' :: rest => if rest.isEmpty then ['/'] else trimBack rest
  | '.' :: '/' :: rest => trimBack ('/' :: rest)
  | cs => cs
termination_by cs => cs.length

/-- The last name of a path and what comes before it. -/
def split (path : String) : String × String :=
  let back := trimBack path.toList.reverse
  let name := back.takeWhile (· ≠ '/')
  (String.ofList name.reverse, String.ofList (back.drop name.length).reverse)

/-- The name of a file. Dots alone do not name one. -/
def fileName? (path : String) : Option String :=
  let name := (split path).1
  if name = "" || name = "." || name = ".." then none else some name

/-- The directory that a path lies in. The root and the empty path lie in none. -/
def parent? (path : String) : Option String :=
  let (name, before) := split path
  if name.isEmpty then none else some (String.ofList (trimBack before.toList.reverse).reverse)

/-- A path as seen from a directory. -/
def under (dir path : String) : String := if path.startsWith "/" then path else s!"{dir}/{path}"

/-- The names on the way from the root to a path. -/
def namesOf (path : String) : List String :=
  ((path.splitOn "/").foldl (fun (way : List String) name =>
    if name = "" || name = "." then way else if name = ".." then way.drop 1 else name :: way)
    []).reverse

/-- Whether a file of that name can be created in the directory, for which other directories may
have to be. The system lets nobody create anything among its own. -/
def isCreatable (dir name : String) : Bool :=
  let allowed := match if dir.startsWith "/" then namesOf dir else [] with
    | "proc" :: _ | "sys" :: _ | "dev" :: "null" :: _ => false
    | _ => true
  allowed && (name :: dir.splitOn "/").all fun n => n.utf8ByteSize ≤ 255 && !n.contains '\x00'

end Nodecast.Log
