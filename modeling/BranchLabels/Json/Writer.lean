import BranchLabels.Json.Basic

/-!
# Writing JSON

A value is written on one line, or with one item a line and two blanks of
indentation for each level.  In strings only the quotation mark, the backslash
and the control characters below U+0020 are escaped.
-/

namespace BranchLabels

namespace Json

/-- What stands between the parts of a value. -/
structure Style where
  /-- What starts a line at a level. -/
  lineBreak : Nat → Text
  /-- What divides the name of a member and its value. -/
  colon : Text

namespace Style

/-- All on one line and without blanks. -/
def compact : Style where
  lineBreak _ := []
  colon := ":".toList

/-- One item a line, two blanks for each level. -/
def indented : Style where
  lineBreak level := '\n' :: List.replicate (2 * level) ' '
  colon := ": ".toList

end Style

/-- A character as it is written in a string. -/
def escape (c : Char) : Text :=
  if c = '"' then ['\\', '"']
  else if c = '\\' then ['\\', '\\']
  else if c = '\x08' then ['\\', 'b']
  else if c = '\t' then ['\\', 't']
  else if c = '\n' then ['\\', 'n']
  else if c = '\x0c' then ['\\', 'f']
  else if c = '\r' then ['\\', 'r']
  else if c.toNat < 0x20 then ['\\', 'u'] ++ Text.hexDigits 4 c.toNat
  else [c]

/-- A string as it is written.  One unpaired surrogate stands for all strings
that are no text. -/
def writeString : Option Text → Text
  | some t => '"' :: (t.flatMap escape ++ ['"'])
  | none => "\"\\ud800\"".toList

/-- Written items between two brackets. -/
def enclose (style : Style) (level : Nat) (opening closing : Char) : List Text → Text
  | [] => [opening, closing]
  | items =>
      opening :: (style.lineBreak (level + 1) ++
        List.intercalate (',' :: style.lineBreak (level + 1)) items ++
        style.lineBreak level ++ [closing])

mutual

/-- A value as it is written at a level. -/
def write (style : Style) (level : Nat) : Json → Text
  | .null => "null".toList
  | .bool true => "true".toList
  | .bool false => "false".toList
  | .number lexeme => lexeme
  | .string t => writeString t
  | .array items => enclose style level '[' ']' (writeItems style (level + 1) items)
  | .object members => enclose style level '\x7b' '\x7d' (writeMembers style (level + 1) members)

/-- The items of an array as they are written. -/
def writeItems (style : Style) (level : Nat) : List Json → List Text
  | [] => []
  | v :: vs => write style level v :: writeItems style level vs

/-- The members of an object as they are written. -/
def writeMembers (style : Style) (level : Nat) : List (Option Text × Json) → List Text
  | [] => []
  | (name, v) :: rest =>
      (writeString name ++ style.colon ++ write style level v) ::
        writeMembers style level rest

end

/-- A value on one line. -/
def compact (v : Json) : Text :=
  v.write .compact 0

/-- A value with one item a line. -/
def indented (v : Json) : Text :=
  v.write .indented 0

end Json

end BranchLabels
