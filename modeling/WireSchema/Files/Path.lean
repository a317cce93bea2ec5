/-! The parts of a path. Names are divided by slashes, and a name is a stem with an ending. -/
namespace WireSchema
namespace Path

/-- The last name of a path, as characters, and the path without it. -/
def split (path : String) : List Char × List Char :=
  let back := path.toList.reverse
  ((back.takeWhile (· ≠ '/')).reverse, (back.dropWhile (· ≠ '/')).reverse)

/-- A name up to its last dot, unless the dot is its first character. -/
def stemOfName (name : List Char) : List Char :=
  match (name.reverse.dropWhile (· ≠ '.')).drop 1 with
  | [] => name
  | back => back.reverse

/-- The stem of the last name, if the path ends in the name of a file. -/
def stem? (path : String) : Option String :=
  let name := (split path).1
  if name = [] ∨ name = ['.'] ∨ name = ['.', '.'] then none
  else some (String.ofList (stemOfName name))

/-- Takes slashes, and dots that stand for the same directory, off the end of a path, which is
given backwards. The first character stays. -/
def trimBack : List Char → List Char
  | '/' :: c :: cs => trimBack (c :: cs)
  | '.' :: '/' :: cs => trimBack ('/' :: cs)
  | back => back

/-- The directory of a file, as it is written in the path of the file. -/
def directory (path : String) : List Char := (trimBack (split path).2.reverse).reverse

/-- A name in a directory. -/
def join (dir : List Char) (name : String) : String :=
  let slash := if dir = [] ∨ dir.getLast? = some '/' then [] else ['/']
  String.ofList (dir ++ slash ++ name.toList)

/-- A file beside another one. -/
def sibling (path name : String) : String := join (directory path) name

end Path
end WireSchema
