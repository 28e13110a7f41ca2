import BranchLabels.Arguments
import BranchLabels.FileSystem
import BranchLabels.Report
import BranchLabels.Rv32

/-!
# Runs

A run reads a listing, labels it and writes the result, and the labels and a
report when they are asked for.  Nothing is written before the whole listing is
labelled.
-/

namespace BranchLabels

/-- Why a run fails. -/
inductive RunError where
  /-- The listing cannot be read, or its labelled form cannot be written. -/
  | file (e : FileError)
  /-- The listing at a path is refused. -/
  | processing (input : Text) (e : ListingError)
  /-- The labels or the report cannot be written. -/
  | exporting (path : Text) (e : FileError)
  deriving DecidableEq

namespace RunError

/-- The wordings of an error and its causes, from the outermost on. -/
def chain : RunError → List Text
  | .file e => e.chain
  | .processing input e => ["processing ".toList ++ input, e.message]
  | .exporting path e => ("writing ".toList ++ path) :: e.chain

/-- A text that is indented, also after each line feed in it. -/
def indent (margin hanging : Text) (t : Text) : Text :=
  margin ++ t.flatMap fun c => if c = '\n' then '\n' :: hanging else [c]

/-- A single cause is indented by four blanks; several are numbered from
zero. -/
def causeLines : List Text → List Text
  | [cause] => [indent "    ".toList "    ".toList cause]
  | causes =>
      causes.zipIdx.map fun (cause, n) =>
        indent (List.replicate (5 - (Text.decimal n).length) ' ' ++ Text.decimal n ++
          ": ".toList) "       ".toList cause

/-- The account of an error: the outermost wording and then the causes. -/
def account (e : RunError) : Text :=
  match e.chain with
  | [] => []
  | outermost :: [] => Text.unlines ["Error: ".toList ++ outermost]
  | outermost :: causes =>
      Text.unlines (["Error: ".toList ++ outermost, [], "Caused by:".toList] ++
        causeLines causes)

end RunError

variable {m : Type → Type} [Monad m] [FileSystem m]

/-- An operation on files as part of a run. -/
def asPart {α : Type} (context : FileError → RunError) (op : ExceptT FileError m α) :
    ExceptT RunError m α :=
  op.run >>= fun
    | .ok a => pure a
    | .error e => throw (context e)

/-- Write a JSON value to a path. -/
def writeJson (path : Text) (v : Json) : ExceptT RunError m Unit :=
  asPart (.exporting path) (writeListing path v.indented)

/-- Label the listing that the arguments name; the result is the number of
labels. -/
def run (args : Arguments) : ExceptT RunError m Nat := do
  let text ← asPart .file (readListing args.input)
  match Labelling.ofText .rv32 args.config text with
  | .error e => throw (.processing args.input e)
  | .ok l =>
      asPart .file (writeListing args.output l.text)
      if let some path := args.labelsOut then
        writeJson path (LabelEntry.listToJson (LabelEntry.ofTable l.labels))
      if let some path := args.report then
        writeJson path (Report.ofLabelling .rv32 l).toJson
      return l.labels.size

/-! ## The program -/

/-- What the program leaves to its caller. -/
structure Outcome where
  exitCode : Nat
  stdout : Text := []
  stderr : Text := []
  deriving DecidableEq

/-- How the program is called. -/
def usage : List Text :=
  ["Usage: rv-pretty --input FILE --output FILE [--label-prefix TEXT]".toList,
    "  [--no-label-spacing] [--labels-out FILE] [--report FILE]".toList]

/-- The wording of why no run follows. -/
def Halt.message : Halt → Text
  | .missingRequired => "a required option is missing".toList
  | .unknownArgument => "unexpected argument".toList
  | .invalidValue => "an option has no valid value".toList
  | .conflict => "an option is given more than once".toList
  | .tooManyValues => "an option takes no value".toList
  | .version => "rv-pretty 0.1.0".toList
  | .help => "Prettify disassembled RISC-V listings with labels".toList

/-- The outcome when no run follows from the arguments. -/
def Halt.outcome : Halt → Outcome
  | .version => ⟨0, Text.unlines [Halt.version.message], []⟩
  | .help => ⟨0, Text.unlines (Halt.help.message :: usage), []⟩
  | halt => ⟨2, [], Text.unlines (("error: ".toList ++ halt.message) :: usage)⟩

/-- The outcome of a run. -/
def runOutcome (args : Arguments) : Except RunError Nat → Outcome
  | .ok labels =>
      ⟨0, "Pretty ASM generated: ".toList ++ args.output ++ " (labels=".toList ++
        Text.decimal labels ++ ")\n".toList, []⟩
  | .error e => ⟨1, [], e.account⟩

/-- The whole program. -/
def program (args : List Text) : m Outcome :=
  match Arguments.parse args with
  | .error halt => pure halt.outcome
  | .ok args => runOutcome args <$> (run args : ExceptT RunError m Nat).run

end BranchLabels
