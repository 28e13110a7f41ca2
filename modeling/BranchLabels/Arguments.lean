import BranchLabels.Config

/-!
# Command line arguments

Options have long names, of which five take a value: either as the next argument
or after `=`.  A separate value is only judged when the next option is read or
the arguments end, so that an argument which is no option at all is reported
before it.
-/

namespace BranchLabels

/-- Why no run follows from the arguments. -/
inductive Halt where
  /-- An option that is needed is absent. -/
  | missingRequired
  /-- An argument is no option and no value of one. -/
  | unknownArgument
  /-- An option has no value, or an empty one where a path is needed. -/
  | invalidValue
  /-- An option is given twice. -/
  | conflict
  /-- An option without value has one. -/
  | tooManyValues
  /-- The version was asked for. -/
  | version
  /-- Help was asked for. -/
  | help
  deriving DecidableEq

/-- The options that take a value. -/
inductive ValueOption where
  | input
  | output
  | labelPrefix
  | labelsOut
  | report
  deriving DecidableEq

/-- All options. -/
inductive OptionName where
  | value (o : ValueOption)
  | noLabelSpacing
  | version
  | help
  deriving DecidableEq

namespace OptionName

/-- The option with a long name. -/
def ofLong? (name : Text) : Option OptionName :=
  [("input".toList, .value .input), ("output".toList, .value .output),
    ("label-prefix".toList, .value .labelPrefix), ("labels-out".toList, .value .labelsOut),
    ("report".toList, .value .report), ("no-label-spacing".toList, noLabelSpacing),
    ("version".toList, version), ("help".toList, help)].lookup name

/-- The option with a letter. -/
def ofShort? : Char → Option OptionName
  | 'V' => some .version
  | 'h' => some .help
  | _ => none

end OptionName

/-- What an argument looks like. -/
inductive Argument where
  /-- Two dashes alone, after which no options follow. -/
  | separator
  /-- Two dashes and a name, with a value when there is a `=`. -/
  | long (name : Text) (value : Option Text)
  /-- One dash and letters, of which the first one counts. -/
  | short (letter : Char)
  /-- Anything else, a lone `-` included. -/
  | plain (value : Text)
  deriving DecidableEq

/-- What an argument looks like. -/
def Argument.ofText : Text → Argument
  | ['-', '-'] => .separator
  | '-' :: '-' :: body =>
      match Text.cutAtFirst? '=' body with
      | some (name, value) => .long name (some value)
      | none => .long body none
  | '-' :: letter :: _ => .short letter
  | value => .plain value

/-- The arguments of a run. -/
structure Arguments where
  input : Text
  output : Text
  labelPrefix : Text := Config.standard.labelPrefix
  noLabelSpacing : Bool := false
  labelsOut : Option Text := none
  report : Option Text := none
  deriving DecidableEq

namespace Arguments

/-- How labels are named and set off in a run. -/
def config (args : Arguments) : Config where
  labelPrefix := args.labelPrefix
  labelSpacing := !args.noLabelSpacing

/-- What has been read of the arguments. -/
structure Reading where
  /-- The options with their values. -/
  given : List (ValueOption × Text) := []
  noLabelSpacing : Bool := false
  /-- The option read last, with its value when there is one, as long as it is
  not judged. -/
  pending : Option (ValueOption × Option Text) := none
  deriving DecidableEq

namespace Reading

/-- Accept the value of an option. -/
def accept (r : Reading) (o : ValueOption) (value : Text) : Except Halt Reading :=
  if (r.given.lookup o).isSome then .error .conflict
  else if value = [] ∧ o ≠ .labelPrefix then .error .invalidValue
  else .ok { r with given := r.given ++ [(o, value)] }

/-- Judge the option read last. -/
def settle (r : Reading) : Except Halt Reading :=
  match r.pending with
  | none => .ok r
  | some (_, none) => .error .invalidValue
  | some (o, some value) => accept { r with pending := none } o value

/-- Read an option without a value. -/
def flag (r : Reading) : OptionName → Except Halt Reading
  | .value o => do
      let r ← r.settle
      return { r with pending := some (o, none) }
  | .noLabelSpacing => do
      let r ← r.settle
      if r.noLabelSpacing then throw .conflict
      return { r with noLabelSpacing := true }
  | .version => do
      let _ ← r.settle
      throw .version
  | .help => do
      let _ ← r.settle
      throw .help

/-- Read an option with a value after `=`. -/
def assign (r : Reading) (value : Text) : OptionName → Except Halt Reading
  | .value o => do
      let r ← r.settle
      r.accept o value
  | _ => .error .tooManyValues

/-- Read an argument that is no option. -/
def supply (r : Reading) (value : Text) : Except Halt Reading :=
  match r.pending with
  | some (o, none) => .ok { r with pending := some (o, some value) }
  | _ => .error .unknownArgument

/-- Read arguments in order; after a separator there may be none. -/
def readAll : Reading → List Text → Except Halt Reading
  | r, [] => r.settle
  | r, arg :: args =>
      match Argument.ofText arg with
      | .separator => if args = [] then r.settle else .error .unknownArgument
      | .long name none =>
          match OptionName.ofLong? name with
          | some o => do readAll (← r.flag o) args
          | none => .error .unknownArgument
      | .long name (some value) =>
          match OptionName.ofLong? name with
          | some o => do readAll (← r.assign value o) args
          | none => .error .unknownArgument
      | .short letter =>
          match OptionName.ofShort? letter with
          | some o => do readAll (← r.flag o) args
          | none => .error .unknownArgument
      | .plain value => do readAll (← r.supply value) args

/-- The arguments of a run, when all that are needed are there. -/
def finish (r : Reading) : Except Halt Arguments :=
  match r.given.lookup .input, r.given.lookup .output with
  | some input, some output =>
      .ok {
        input
        output
        labelPrefix := (r.given.lookup .labelPrefix).getD Config.standard.labelPrefix
        noLabelSpacing := r.noLabelSpacing
        labelsOut := r.given.lookup .labelsOut
        report := r.given.lookup .report }
  | _, _ => .error .missingRequired

end Reading

/-- Read the arguments of a run. -/
def parse (args : List Text) : Except Halt Arguments := do
  let r ← Reading.readAll {} args
  r.finish

end Arguments

end BranchLabels
