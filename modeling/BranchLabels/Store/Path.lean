import BranchLabels.Text.Basic

/-!
# Paths

A path is a text in which slashes divide names.  `.` stands for the directory
reached so far and `..` for the one above it; empty pieces do not count.
-/

namespace BranchLabels

namespace Path

/-- The pieces of a path, without the empty ones. -/
def pieces (path : Text) : List Text :=
  (path.splitOn '/').filter (· ≠ [])

/-- Whether a path starts at the root. -/
def isAbsolute (path : Text) : Bool :=
  path.head? = some '/'

/-- Whether a path ends in a slash. -/
def endsInSlash (path : Text) : Bool :=
  path.getLast? = some '/'

/-- Whether a piece after the first names nothing. -/
def isIdle (piece : Text) : Bool :=
  piece = [] ∨ piece = ['.']

/-- The path of pieces. -/
def join (pieces : List Text) : Text :=
  List.intercalate ['/'] pieces

/-- The path with a first piece and further pieces, given from the last one on,
and all paths above it, each without idle pieces at its end. -/
def chain (first : Text) : List Text → List Text
  | [] => [if first = [] then ['/'] else first]
  | piece :: outer =>
      if isIdle piece then chain first outer
      else join (first :: (piece :: outer).reverse) :: chain first outer

/-- The paths above a path, from the nearest on.  A relative path of one name has
none. -/
def above (path : Text) : List Text :=
  match path.splitOn '/' with
  | [] => []
  | first :: rest => (chain first rest.reverse).tail

example : above "a//b/./c".toList = ["a//b".toList, "a".toList] := by decide

example : above "/a/".toList = ["/".toList] := by decide

example : above "./.".toList = [] := by decide

end Path

end BranchLabels
