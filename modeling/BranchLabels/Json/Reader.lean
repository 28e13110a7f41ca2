import BranchLabels.Json.Basic

/-!
# Reading JSON

The strict grammar of JSON: no leading zeros, no bare control characters, no
trailing commas, nothing after the value.
-/

namespace BranchLabels

namespace Json

/-- Whether a character may stand between the parts of a value. -/
def isSpace (c : Char) : Bool :=
  c == ' ' || c == '\t' || c == '\n' || c == '\r'

/-- A text less the blanks at its start that JSON allows. -/
def skipSpace (t : Text) : Text :=
  t.dropWhile isSpace

/-! ## Numbers -/

/-- The digits at the start of a text and what follows; at least one is
needed. -/
def readDigits? (t : Text) : Option (Text × Text) :=
  match t.takeWhile Text.isDecimalDigit with
  | [] => none
  | digits => some (digits, t.dropWhile Text.isDecimalDigit)

/-- The digits before the point, without leading zeros. -/
def readWhole? (t : Text) : Option (Text × Text) :=
  match readDigits? t with
  | some ('0' :: _ :: _, _) => none
  | result => result

/-- The point and the digits after it, if there is a point. -/
def readFraction? : Text → Option (Text × Text)
  | '.' :: t => (readDigits? t).map fun (digits, rest) => ('.' :: digits, rest)
  | t => some ([], t)

/-- The sign of an exponent, if there is one. -/
def readExponentSign : Text → Text × Text
  | '+' :: t => (['+'], t)
  | '-' :: t => (['-'], t)
  | t => ([], t)

/-- The exponent, if there is one. -/
def readExponent? : Text → Option (Text × Text)
  | [] => some ([], [])
  | c :: t =>
      if c = 'e' ∨ c = 'E' then
        let (sign, t) := readExponentSign t
        (readDigits? t).map fun (digits, rest) => (c :: sign ++ digits, rest)
      else some ([], c :: t)

/-- A number without its sign. -/
def readUnsigned? (t : Text) : Option (Text × Text) := do
  let (whole, t) ← readWhole? t
  let (fraction, t) ← readFraction? t
  let (exponent, t) ← readExponent? t
  return (whole ++ fraction ++ exponent, t)

/-- A number as it is written, and what follows. -/
def readNumber? : Text → Option (Text × Text)
  | '-' :: t => (readUnsigned? t).map fun (lexeme, rest) => ('-' :: lexeme, rest)
  | t => readUnsigned? t

/-! ## Strings -/

/-- A part of a written string. -/
inductive StringPart where
  /-- A character, or an escape that stands for one. -/
  | char (c : Char)
  /-- A UTF-16 code unit, given by its number. -/
  | unit (n : Nat)

/-- The character that a letter after a backslash stands for. -/
def unescape? (c : Char) : Option Char :=
  if c = '"' then some '"'
  else if c = '\\' then some '\\'
  else if c = '/' then some '/'
  else if c = 'b' then some '\x08'
  else if c = 'f' then some '\x0c'
  else if c = 'n' then some '\n'
  else if c = 'r' then some '\r'
  else if c = 't' then some '\t'
  else none

/-- The parts of a string up to its closing quotation mark, and what follows. -/
def readParts? : Text → Option (List StringPart × Text)
  | [] => none
  | '"' :: t => some ([], t)
  | '\\' :: 'u' :: a :: b :: c :: d :: t =>
      match Text.readHex? [a, b, c, d], readParts? t with
      | some n, some (parts, rest) => some (.unit n :: parts, rest)
      | _, _ => none
  | '\\' :: c :: t =>
      match unescape? c, readParts? t with
      | some e, some (parts, rest) => some (.char e :: parts, rest)
      | _, _ => none
  | c :: t =>
      if c = '\\' ∨ c.toNat < 0x20 then none
      else (readParts? t).map fun (parts, rest) => (.char c :: parts, rest)

/-- Whether a code unit is the first of a surrogate pair. -/
def isHighSurrogate (n : Nat) : Bool :=
  0xD800 ≤ n && n < 0xDC00

/-- Whether a code unit is the second of a surrogate pair. -/
def isLowSurrogate (n : Nat) : Bool :=
  0xDC00 ≤ n && n < 0xE000

/-- The text of the parts of a string after an open first surrogate, if one is
open.  There is none when a surrogate has no partner. -/
def joinParts? : Option Nat → List StringPart → Option Text
  | none, [] => some []
  | none, .char c :: parts => (joinParts? none parts).map (c :: ·)
  | none, .unit n :: parts =>
      if isHighSurrogate n then joinParts? (some n) parts
      else if isLowSurrogate n then none
      else (joinParts? none parts).map (Char.ofNat n :: ·)
  | some high, .unit n :: parts =>
      if isLowSurrogate n then
        (joinParts? none parts).map
          (Char.ofNat (0x10000 + (high - 0xD800) * 0x400 + (n - 0xDC00)) :: ·)
      else none
  | some _, _ => none

/-- A string after its opening quotation mark, and what follows. -/
def readString? (t : Text) : Option (Option Text × Text) :=
  (readParts? t).map fun (parts, rest) => (joinParts? none parts, rest)

/-! ## Values -/

mutual

/-- A value and what follows it, read with a bound on the number of steps. -/
def readValue? : Nat → Text → Option (Json × Text)
  | 0, _ => none
  | bound + 1, t =>
      match skipSpace t with
      | 'n' :: 'u' :: 'l' :: 'l' :: rest => some (.null, rest)
      | 't' :: 'r' :: 'u' :: 'e' :: rest => some (.bool true, rest)
      | 'f' :: 'a' :: 'l' :: 's' :: 'e' :: rest => some (.bool false, rest)
      | '"' :: t => (readString? t).map fun (s, rest) => (.string s, rest)
      | '[' :: t =>
          match skipSpace t with
          | ']' :: rest => some (.array [], rest)
          | t => (readItems? bound t).map fun (items, rest) => (.array items, rest)
      | '\x7b' :: t =>
          match skipSpace t with
          | '\x7d' :: rest => some (.object [], rest)
          | t => (readMembers? bound t).map fun (members, rest) => (.object members, rest)
      | t => (readNumber? t).map fun (lexeme, rest) => (.number lexeme, rest)

/-- One item of an array and all that follow, up to the closing bracket. -/
def readItems? : Nat → Text → Option (List Json × Text)
  | 0, _ => none
  | bound + 1, t =>
      match readValue? bound t with
      | none => none
      | some (v, t) =>
          match skipSpace t with
          | ']' :: rest => some ([v], rest)
          | ',' :: t => (readItems? bound t).map fun (vs, rest) => (v :: vs, rest)
          | _ => none

/-- One member of an object and all that follow, up to the closing brace. -/
def readMembers? : Nat → Text → Option (List (Option Text × Json) × Text)
  | 0, _ => none
  | bound + 1, t =>
      match readMember? bound t with
      | none => none
      | some (m, t) =>
          match skipSpace t with
          | '\x7d' :: rest => some ([m], rest)
          | ',' :: t => (readMembers? bound t).map fun (ms, rest) => (m :: ms, rest)
          | _ => none

/-- One member of an object. -/
def readMember? : Nat → Text → Option ((Option Text × Json) × Text)
  | 0, _ => none
  | bound + 1, t =>
      match skipSpace t with
      | '"' :: t =>
          match readString? t with
          | none => none
          | some (name, t) =>
              match skipSpace t with
              | ':' :: t => (readValue? bound t).map fun (v, rest) => ((name, v), rest)
              | _ => none
      | _ => none

end

/-- The value of a JSON text.  There are at most two steps for each character and
one more at the end, so the bound is never reached. -/
def read? (t : Text) : Option Json :=
  match readValue? (3 * t.length + 3) t with
  | some (v, rest) => if skipSpace rest = [] then some v else none
  | none => none

end Json

end BranchLabels
