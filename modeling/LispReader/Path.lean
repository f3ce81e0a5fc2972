/-! File paths.

A path is a root and the names between slashes. Empty names and single dots are dropped when a
path is read; double dots stay, as they depend on the directories that are there. -/
namespace LispReader

/-- The root is empty for a relative path, and one or two slashes for an absolute one. -/
structure Path where
  root : String
  names : List String
  deriving DecidableEq, Repr

namespace Path

/-- Two leading slashes are kept; any other positive number of them counts as one. -/
def rootOf (cs : List Char) : String :=
  match (cs.takeWhile (· = '/')).length with
  | 0 => ""
  | 2 => "//"
  | _ => "/"

def ofString (s : String) : Path where
  root := rootOf s.toList
  names := ((s.toList.splitOn '/').map String.ofList).filter fun name => name ≠ "" ∧ name ≠ "."

/-- The shortest spelling; the path without root and names is the working directory. -/
def text (p : Path) : String :=
  if p.root = "" ∧ p.names = [] then "." else p.root ++ "/".intercalate p.names

example : (ofString "./d//x/").text = "d/x" := by cbv
example : (ofString "").text = "." := by cbv

end Path

end LispReader
