/-! Files that can be read, and why some cannot. -/
namespace WireSchema

inductive ReadFault where
  | notFound
  | notDirectory
  | isDirectory
  | notText
  | other (reason : String)
deriving DecidableEq, Repr

def ReadFault.message : ReadFault → String
  | .notFound => "No such file or directory (os error 2)"
  | .notDirectory => "Not a directory (os error 20)"
  | .isDirectory => "Is a directory (os error 21)"
  | .notText => "stream did not contain valid UTF-8"
  | .other reason => reason

/-- What there is at each path. -/
structure Files where
  /-- There is a file at the path, whether or not it can be read. -/
  isFile : String → Bool
  /-- What reading the file gives. -/
  read : String → Except ReadFault ByteArray

/-- The text of a file; a byte order mark is part of it. -/
def Files.readText (files : Files) (path : String) : Except ReadFault String := do
  match String.fromUTF8? (← files.read path) with
  | some text => return text
  | none => throw .notText

end WireSchema
