import BranchLabels.Store.Basic
import BranchLabels.Text.Utf8

/-!
# Listings in files

Reading and writing listings, over any file system that can read a file and save
one.  A store is such a file system, and what happens to it can be stated and
proved; the command line uses the one of the machine.
-/

namespace BranchLabels

/-- A file system with the two operations that are needed. -/
class FileSystem (m : Type → Type) where
  /-- The bytes of the file at a path. -/
  read : Text → m (Except Fault (List UInt8))
  /-- Write a file and make the directories above it first. -/
  save : Text → List UInt8 → m (Except Fault Unit)

/-- A store is a file system. -/
instance : FileSystem (StateM Store) where
  read path := fun s => (s.read path, s)
  save path bytes := fun s => s.save path bytes

/-- Why a listing cannot be read or written. -/
inductive FileError where
  | inputNotFound (path : Text)
  | read (path : Text) (fault : Fault)
  | write (path : Text) (fault : Fault)
  deriving DecidableEq

namespace FileError

/-- The wording of an error, without its cause. -/
def message : FileError → Text
  | .inputNotFound path => "Input ASM not found: ".toList ++ path
  | .read path _ => "failed to read ".toList ++ path
  | .write path _ => "failed to write ".toList ++ path

/-- The cause of an error; that an input does not exist has none. -/
def cause? : FileError → Option Fault
  | .inputNotFound _ => none
  | .read _ fault => some fault
  | .write _ fault => some fault

/-- The wordings of an error and its cause. -/
def chain (e : FileError) : List Text :=
  e.message :: (e.cause?.map Fault.message).toList

/-- The error of not reading a path. -/
def ofRead (path : Text) : Fault → FileError
  | .notFound => .inputNotFound path
  | fault => .read path fault

end FileError

variable {m : Type → Type} [Monad m] [FileSystem m]

/-- Read a listing; octets that are no text are replaced and not refused. -/
def readListing (path : Text) : ExceptT FileError m Text := do
  match ← (FileSystem.read path : m _) with
  | .ok bytes => return Utf8.decode bytes
  | .error fault => throw (.ofRead path fault)

/-- Write a listing. -/
def writeListing (path : Text) (text : Text) : ExceptT FileError m Unit := do
  match ← (FileSystem.save path (Utf8.encode text) : m _) with
  | .ok () => return ()
  | .error fault => throw (.write path fault)

end BranchLabels
