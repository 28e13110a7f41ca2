import BranchLabels.AssocList
import BranchLabels.Store.Path

/-!
# File stores

A tree of directories and files with a current directory.  An entry of the tree
is known by its location: its name and those of the directories around it, from
the inside out.  Operations fail for structural reasons only.

Main results:

- Theorem `get?_put`: what a store holds after a change.
-/

namespace BranchLabels

/-- Why an operation on files fails. -/
inductive Fault where
  /-- A part of the path does not exist. -/
  | notFound
  /-- The path exists already. -/
  | present
  /-- A part of the path that should be a directory is a file. -/
  | notDirectory
  /-- The path is a directory. -/
  | isDirectory
  | nameTooLong
  /-- The path has a NUL character. -/
  | nulByte
  /-- Any other reason, in its own words. -/
  | other (reason : Text)
  deriving DecidableEq

/-- The wording of a fault. -/
def Fault.message : Fault → Text
  | .notFound => "No such file or directory (os error 2)".toList
  | .present => "File exists (os error 17)".toList
  | .notDirectory => "Not a directory (os error 20)".toList
  | .isDirectory => "Is a directory (os error 21)".toList
  | .nameTooLong => "File name too long (os error 36)".toList
  | .nulByte => "file name contained an unexpected NUL byte".toList
  | .other reason => reason

/-- An entry of the tree. -/
inductive Entry where
  | directory
  | file (bytes : List UInt8)
  deriving DecidableEq

/-- The names that lead to an entry, from the inside out. -/
abbrev Location := List Text

/-- A tree of directories and files with a current directory.  The root is not
among the entries. -/
structure Store where
  entries : List (Location × Entry)
  /-- Where relative paths start. -/
  current : Location
  deriving DecidableEq

namespace Store

/-- The entry at a location. -/
def get? (s : Store) (l : Location) : Option Entry :=
  s.entries.lookup l

/-- The store with an entry put at a location. -/
def put (s : Store) (l : Location) (e : Entry) : Store :=
  { s with entries := (l, e) :: s.entries.filter (·.1 ≠ l) }

/-- What a store holds after a change. -/
theorem get?_put (s : Store) (l m : Location) (e : Entry) :
    (s.put l e).get? m = if m = l then some e else s.get? m := by
  show ((l, e) :: s.entries.filter (·.1 ≠ l)).lookup m = _
  rw [AssocList.lookup_cons_eq]
  by_cases h : m = l
  · rw [if_pos h, if_pos h]
  · rw [if_neg h, if_neg h, AssocList.lookup_filter_ne h]
    rfl

/-- A store that holds nothing but its current directory. -/
def fresh : Store where
  entries := [(["work".toList], .directory)]
  current := ["work".toList]

/-! ## Walking a path -/

/-- The greatest length of a name in bytes. -/
def maxNameLength : Nat := 255

/-- The greatest length of a path in bytes. -/
def maxPathLength : Nat := 4095

/-- The entry with a name in a directory. -/
def child? (s : Store) (here : Location) (name : Text) : Except Fault (Option Entry) :=
  if maxNameLength < Text.byteLength name then .error .nameTooLong
  else .ok (s.get? (name :: here))

/-- Go from a directory to the one that a piece of a path names. -/
def enter (s : Store) (here : Location) (piece : Text) : Except Fault Location :=
  if piece = ".".toList then .ok here
  else if piece = "..".toList then .ok here.tail
  else
    match s.child? here piece with
    | .error e => .error e
    | .ok none => .error .notFound
    | .ok (some (.file _)) => .error .notDirectory
    | .ok (some .directory) => .ok (piece :: here)

/-- Go through several pieces of a path. -/
def walk (s : Store) : Location → List Text → Except Fault Location
  | here, [] => .ok here
  | here, piece :: pieces =>
      match s.enter here piece with
      | .ok there => s.walk there pieces
      | .error e => .error e

/-- What the last piece of a path names, when all before it are directories. -/
inductive Place where
  /-- A directory that was reached on the way. -/
  | reached
  /-- The entry with a name in a directory; the path may end in a slash after
  it. -/
  | named (here : Location) (name : Text) (slash : Bool)
  deriving DecidableEq

/-- The place of a last piece in a directory. -/
def lastPlace (here : Location) (piece : Text) (slash : Bool) : Place :=
  if piece = ".".toList ∨ piece = "..".toList then .reached
  else .named here piece slash

/-- Where a path leads. -/
def locate (s : Store) (path : Text) : Except Fault Place :=
  if '\x00' ∈ path then .error .nulByte
  else if maxPathLength < Text.byteLength path then .error .nameTooLong
  else if path = [] then .error .notFound
  else
    match (Path.pieces path).getLast? with
    | none => .ok .reached
    | some last =>
        let start := if Path.isAbsolute path then [] else s.current
        match s.walk start (Path.pieces path).dropLast with
        | .ok here => .ok (lastPlace here last (Path.endsInSlash path))
        | .error e => .error e

/-! ## Reading and writing -/

/-- The bytes of the file at a path. -/
def read (s : Store) (path : Text) : Except Fault (List UInt8) :=
  match s.locate path with
  | .error e => .error e
  | .ok .reached => .error .isDirectory
  | .ok (.named here name slash) =>
      match s.child? here name with
      | .error e => .error e
      | .ok none => .error .notFound
      | .ok (some .directory) => .error .isDirectory
      | .ok (some (.file bytes)) => if slash then .error .notDirectory else .ok bytes

/-- The store after a file was written in a directory that exists. -/
def write (s : Store) (path : Text) (bytes : List UInt8) : Except Fault Store :=
  match s.locate path with
  | .error e => .error e
  | .ok .reached => .error .isDirectory
  | .ok (.named _ _ true) => .error .isDirectory
  | .ok (.named here name false) =>
      match s.child? here name with
      | .error e => .error e
      | .ok (some .directory) => .error .isDirectory
      | .ok _ => .ok (s.put (name :: here) (.file bytes))

/-- The store after a directory was made in a directory that exists. -/
def makeDirectory (s : Store) (path : Text) : Except Fault Store :=
  match s.locate path with
  | .error e => .error e
  | .ok .reached => .error .present
  | .ok (.named here name _) =>
      match s.child? here name with
      | .error e => .error e
      | .ok (some _) => .error .present
      | .ok none => .ok (s.put (name :: here) .directory)

/-- Whether a path leads to a directory. -/
def isDirectory (s : Store) (path : Text) : Bool :=
  match s.locate path with
  | .ok .reached => true
  | .ok (.named here name _) =>
      match s.child? here name with
      | .ok (some .directory) => true
      | _ => false
  | .error _ => false

/-- Make a directory unless it exists. -/
def ensureDirectory (s : Store) (path : Text) : Except Fault Unit × Store :=
  match s.makeDirectory path with
  | .ok t => (.ok (), t)
  | .error e => if s.isDirectory path then (.ok (), s) else (.error e, s)

/-- Make the first directory of a list, each of which lies in the next one.  The
ones further out are made only when they are needed, and stay even if a later
one cannot be made. -/
def ensureDirectories : List Text → Store → Except Fault Unit × Store
  | [], s => (.ok (), s)
  | path :: outer, s =>
      match s.makeDirectory path with
      | .error .notFound =>
          match ensureDirectories outer s with
          | (.ok (), t) => t.ensureDirectory path
          | (.error e, t) => (.error e, t)
      | _ => s.ensureDirectory path

/-- Write a file and make the directories above it first. -/
def save (s : Store) (path : Text) (bytes : List UInt8) : Except Fault Unit × Store :=
  match ensureDirectories (Path.above path) s with
  | (.error e, t) => (.error e, t)
  | (.ok (), t) =>
      match t.write path bytes with
      | .ok u => (.ok (), u)
      | .error e => (.error e, t)

/-! ## Contents -/

/-- The path of a location that lies inside of the current directory. -/
def relativePath? (s : Store) (l : Location) : Option Text :=
  let depth := l.length - s.current.length
  if 0 < depth ∧ l.drop depth = s.current then some (Path.join (l.take depth).reverse)
  else none

/-- All entries inside of the current directory. -/
def contents (s : Store) : List (Text × Entry) :=
  s.entries.filterMap fun (l, e) => (s.relativePath? l).map fun path => (path, e)

end Store

end BranchLabels
