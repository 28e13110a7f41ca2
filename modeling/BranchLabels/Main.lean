import BranchLabels.Run

/-!
# The command line

The program with the file system of the machine.
-/

namespace BranchLabels

namespace Machine

/-- Whether an error code is a given one; some operations report it with the
opposite sign. -/
def isCode (expected code : UInt32) : Bool :=
  code = expected || code = 0 - expected

/-- The fault behind an error of the machine. -/
def faultOf : IO.Error → Fault
  | .noFileOrDirectory .. => .notFound
  | .alreadyExists .. => .present
  | e@(.inappropriateType _ code _) =>
      if isCode 20 code then .notDirectory
      else if isCode 21 code then .isDirectory
      else .other e.toString.toList
  | e@(.invalidArgument _ code _) =>
      if isCode 36 code then .nameTooLong else .other e.toString.toList
  | e => .other e.toString.toList

/-- The outcome of an action on a path of the machine. -/
def attempt {α : Type} (path : Text) (action : String → IO α) : IO (Except Fault α) :=
  if '\x00' ∈ path then return .error .nulByte
  else
    try
      return .ok (← action (String.ofList path))
    catch e => return .error (faultOf e)

/-- Make a directory. -/
def makeDirectory (path : Text) : IO (Except Fault Unit) :=
  attempt path fun p => IO.FS.createDir p

/-- Whether a path leads to a directory, in which `.` then cannot be made
again. -/
def isDirectory (path : Text) : IO Bool := do
  return (← makeDirectory (path ++ "/.".toList)) matches .error .present

/-- Make a directory unless it exists. -/
def ensureDirectory (path : Text) : IO (Except Fault Unit) := do
  match ← makeDirectory path with
  | .ok () => return .ok ()
  | .error fault => return if ← isDirectory path then .ok () else .error fault

/-- Make the first directory of a list, each of which lies in the next one. -/
def ensureDirectories : List Text → IO (Except Fault Unit)
  | [] => return .ok ()
  | path :: outer => do
      match ← makeDirectory path with
      | .error .notFound =>
          match ← ensureDirectories outer with
          | .ok () => ensureDirectory path
          | .error fault => return .error fault
      | _ => ensureDirectory path

/-- Write a file and make the directories above it first. -/
def save (path : Text) (bytes : List UInt8) : IO (Except Fault Unit) := do
  match ← ensureDirectories (Path.above path) with
  | .ok () => attempt path fun p => IO.FS.writeBinFile p ⟨bytes.toArray⟩
  | .error fault => return .error fault

/-- The file system of the machine. -/
instance : FileSystem IO where
  read path := attempt path fun p => do return (← IO.FS.readBinFile p).toList
  save := save

end Machine

end BranchLabels

/-- Run the program with the arguments of the command line. -/
def main (args : List String) : IO UInt32 := do
  let outcome ← BranchLabels.program (args.map String.toList)
  IO.print (String.ofList outcome.stdout)
  IO.eprint (String.ofList outcome.stderr)
  return outcome.exitCode.toUInt32
