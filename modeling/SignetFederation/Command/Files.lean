import SignetFederation.Text.Fields

/-!
# Files

The files below a working directory by their paths. A path is a row of names; empty names and `.`
do not count and `..` leaves a directory. A directory is there as soon as there is a file in it or
it was made. Writing fails where a directory stands, or where a file stands in a directory's place.
-/

namespace SignetFederation

namespace Command

/-- A path as a row of names. -/
abbrev Path := List (List Char)

namespace Path

/-- A row of names, the last one first, with another name at its end. -/
def enter (reversed : Path) (name : List Char) : Path :=
  if name = [] ∨ name = ['.'] then reversed
  else if name = ['.', '.'] then
    match reversed with
    | [] => [name]
    | last :: rest => if last = ['.', '.'] then name :: reversed else rest
  else name :: reversed

/-- The path of a text. An absolute one begins with the name of the top directory. -/
def ofString (s : String) : Path :=
  let names := Text.fields '/' s.toList
  let below := (names.foldl enter []).reverse
  if s.toList.head? = some '/' then ['/'] :: below else below

/-- The text of a path. -/
def text (p : Path) : String := String.ofList (Text.joinWith '/' p)

/-- Whether a path stays below the working directory. -/
def isLocal (p : Path) : Bool := p.head? ≠ some ['.', '.'] && p.head? ≠ some ['/']

/-- The directories that a path leads through. -/
def parents (p : Path) : List Path := (List.range p.length).map fun n => p.take n

end Path

/-- A path by its directory and the name in it. -/
def join (directory name : String) : String := directory ++ "/" ++ name

/-- Files by their paths, and directories that were made. -/
structure Files where
  contents : List (Path × String)
  made : List Path

namespace Files

/-- The given files. -/
def ofList (files : List (String × String)) : Files :=
  ⟨files.map fun e => (Path.ofString e.1, e.2), []⟩

/-- The content of the file at a path. -/
def get? (f : Files) (p : Path) : Option String := f.contents.lookup p

/-- Whether a text can be the path of a file: it does not end with a separator. -/
def namesFile (s : String) : Bool := s ≠ "" && s.toList.getLast? ≠ some '/'

/-- The content of the file that a text names. -/
def read? (f : Files) (s : String) : Option String :=
  if namesFile s then f.get? (Path.ofString s) else none

/-- Whether there is a directory at a path. -/
def isDirectory (f : Files) (p : Path) : Bool :=
  p == [] || f.made.contains p || f.contents.any fun e => p != e.1 && p.isPrefixOf e.1

/-- The files with a directory and those that it lies in, unless a file is in the way. -/
def makeDirectory (f : Files) (s : String) : Option Files :=
  let p := Path.ofString s
  let needed := Path.parents p ++ [p]
  if needed.any fun d => (f.get? d).isSome then none else some { f with made := f.made ++ needed }

/-- The files with another one, in place of the one that was there. -/
def write (f : Files) (s content : String) : Option Files :=
  let p := Path.ofString s
  if !namesFile s || f.isDirectory p || !f.isDirectory p.dropLast then none
  else some { f with contents := (p, content) :: f.contents.filter fun e => e.1 != p }

/-- The texts of the paths below the working directory, in order. -/
def names (f : Files) : List String :=
  ((f.contents.filter fun e => e.1.isLocal).map fun e => e.1.text).mergeSort fun a b => a ≤ b

end Files

end Command

end SignetFederation
