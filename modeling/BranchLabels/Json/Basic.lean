import BranchLabels.Text.Numeral

/-!
# JSON values

JSON as a tree.  A number is kept as it is written, so that nothing is lost
about it.  Members of an object keep their order, and several may have the same
name.  A string with an unpaired surrogate is no text: all such strings are
`none`.
-/

namespace BranchLabels

/-- A JSON value. -/
inductive Json where
  | null
  | bool (b : Bool)
  /-- A number, as it is written. -/
  | number (lexeme : Text)
  /-- A string, which is no text when it has an unpaired surrogate. -/
  | string (t : Option Text)
  | array (items : List Json)
  | object (members : List (Option Text × Json))

namespace Json

/-- A text as a JSON value. -/
def ofText (t : Text) : Json :=
  .string (some t)

/-- A number as a JSON value. -/
def ofNat (n : Nat) : Json :=
  .number (Text.decimal n)

/-- An object whose members have given names. -/
def record (members : List (String × Json)) : Json :=
  .object (members.map fun (name, v) => (some name.toList, v))

/-! ## Reading values off a tree -/

/-- The text of a string. -/
def text? : Json → Option Text
  | .string t => t
  | _ => none

/-- The truth value of a literal. -/
def bool? : Json → Option Bool
  | .bool b => some b
  | _ => none

/-- The number of a numeral without sign, fraction and exponent. -/
def nat? : Json → Option Nat
  | .number lexeme => Text.readDecimal? lexeme
  | _ => none

/-- The only member with a given name, if there is one; several are refused. -/
def member? (name : Text) (members : List (Option Text × Json)) : Option (Option Json) :=
  match members.filter (·.1 = some name) with
  | [] => some none
  | [(_, v)] => some (some v)
  | _ => none

/-- The values of named fields, each of which may be absent.  A record is an
object, in which other members do not count, or an array of the leading fields
in order. -/
def fields? (names : List String) : Json → Option (List (Option Json))
  | .array items =>
      if items.length ≤ names.length then
        some ((List.range names.length).map fun n => items[n]?)
      else none
  | .object members =>
      if members.any (·.1.isNone) then none
      else names.mapM fun name => member? name.toList members
  | _ => none

end Json

end BranchLabels
