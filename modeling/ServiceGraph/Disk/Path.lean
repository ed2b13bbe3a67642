import ServiceGraph.Text.Blank

namespace ServiceGraph.Path

/-- The path of a name in a directory. -/
def join (directory name : String) : String :=
  match directory.toList.getLast? with
  | none => name
  | some c => if c = '/' then directory ++ name else directory ++ "/" ++ name

/-- The path of what a list of names leads to. -/
def joinAll (directory : String) (names : List String) : String := names.foldl join directory

def endsInSlash (path : String) : Bool := path.toList.getLast? == some '/'

/-- The parts between slashes. -/
def partNames (path : String) : List String :=
  ((Text.pieces (· == '/') path.toList).filter (!·.isEmpty)).map String.ofList

/-- The names on the way. A path that ends in `/` has to lead to a directory, so that it means the
directory itself there. -/
def names (path : String) : List String :=
  partNames path ++ if endsInSlash path then ["."] else []

/-- Whether a name has more bytes than a directory takes. -/
def isTooLong (name : String) : Bool := 255 < name.utf8ByteSize

/-- Whether a path has more bytes than can be asked for at once. -/
def isOverlong (path : String) : Bool := 4095 < path.utf8ByteSize

def isBad (path : String) : Bool := path.toList.contains '\x00'

/-- A path in reverse without the slashes and the parts `.` after its last name. -/
def dropEnd : (reversed : List Char) → List Char
  | '/' :: rest => dropEnd rest
  | '.' :: '/' :: rest => dropEnd rest
  | cs => cs

/-- The path without its last name. -/
def parent? (path : String) : Option String :=
  match dropEnd path.toList.reverse with
  | [] => none
  | cs =>
    match cs.dropWhile (· != '/') with
    | [] => some ""
    | rest =>
      match dropEnd rest with
      | [] => some "/"
      | rest => some (String.ofList rest.reverse)

end ServiceGraph.Path
