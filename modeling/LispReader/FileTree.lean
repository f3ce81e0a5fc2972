import LispReader.Path
import LispReader.Text.Quoted
import LispReader.Text.Utf8
import LispReader.Text.Newline

/-! Files and directories below a working directory.

A path is followed name by name. Only what lies in the working directory is known: a place above
it is a directory in which nothing can be found. -/
namespace LispReader

/-- Why the text of a file cannot be had. -/
inductive FileFault where
  | notFound
  | notDirectory
  | isDirectory
  | nameTooLong
  | undecodable (fault : Text.Utf8.Fault)
  deriving DecidableEq, Repr

def FileFault.message (path : Path) : FileFault → String
  | notFound => s!"[Errno 2] No such file or directory: {Text.Quoted.quote path.text}"
  | notDirectory => s!"[Errno 20] Not a directory: {Text.Quoted.quote path.text}"
  | isDirectory => s!"[Errno 21] Is a directory: {Text.Quoted.quote path.text}"
  | nameTooLong => s!"[Errno 36] File name too long: {Text.Quoted.quote path.text}"
  | undecodable fault => fault.message

/-- The names that lead to each file or directory from the working directory, with the bytes of a
file. Directories on the way to an entry need no entry of their own. -/
structure FileTree where
  entries : List (List String × Option (List UInt8))

namespace FileTree

/-- The bytes of the file at a place. -/
def bytes? (tree : FileTree) (place : List String) : Option (List UInt8) :=
  (tree.entries.find? (·.1 = place)).bind (·.2)

/-- There is a file or directory at a place. -/
def contains (tree : FileTree) (place : List String) : Bool :=
  tree.entries.any fun entry => place.isPrefixOf entry.1

/-- The greatest number of bytes in a name. -/
def nameLimit : Nat := 255

/-- The greatest number of bytes in a path. -/
def pathLimit : Nat := 4095

/-- Follows one name from a place; no place is known outside the working directory. -/
def follow (tree : FileTree) (place : Option (List String)) (name : String) :
    Except FileFault (Option (List String)) :=
  let isFile := place.any fun place => (tree.bytes? place).isSome
  if isFile then .error .notDirectory
  else if name = ".." then
    match place with
    | none | some [] => .ok none
    | some names => .ok (some names.dropLast)
  else if nameLimit < name.utf8ByteSize then .error .nameTooLong
  else
    match place with
    | none => .error .notFound
    | some names =>
      if tree.contains (names ++ [name]) then .ok (some (names ++ [name])) else .error .notFound

/-- The bytes of the file that a path leads to. -/
def read (tree : FileTree) (path : Path) : Except FileFault (List UInt8) := do
  if pathLimit < path.text.utf8ByteSize then throw .nameTooLong
  let start := if path.root = "" then some [] else none
  let place ← path.names.foldlM tree.follow start
  match place.bind tree.bytes? with
  | some bytes => return bytes
  | none => throw .isDirectory

end FileTree

/-- The text that the bytes of a file encode, with line feeds as its line ends. -/
def decodeFile (bytes : List UInt8) : Except FileFault String :=
  match Text.Utf8.decode bytes with
  | .ok s => .ok (String.ofList (Text.Newline.unify s.toList))
  | .error fault => .error (.undecodable fault)

end LispReader
