import BranchLabels.Text.Basic

/-!
# UTF-8

Writing a text as octets, and reading octets that may not be well formed.  The
reader keeps the sequence it is inside of as its state.  An octet that cannot
continue that sequence ends it: the part read so far becomes one replacement
character, and the octet is read afresh.

Main results:

- Theorem `step_ascii`: an octet of the first 128 ends whatever sequence is open.
-/

namespace BranchLabels

namespace Utf8

/-- The character that stands for octets that are no text. -/
def replacement : Char := '\uFFFD'

/-- An octet of eight bits, given by its value. -/
def octet (n : Nat) : UInt8 :=
  UInt8.ofNat n

/-- The octets of a character. -/
def encodeChar (c : Char) : List UInt8 :=
  let v := c.toNat
  if v < 0x80 then [octet v]
  else if v < 0x800 then [octet (0xC0 + v / 0x40), octet (0x80 + v % 0x40)]
  else if v < 0x10000 then
    [octet (0xE0 + v / 0x1000), octet (0x80 + v / 0x40 % 0x40), octet (0x80 + v % 0x40)]
  else
    [octet (0xF0 + v / 0x40000), octet (0x80 + v / 0x1000 % 0x40),
      octet (0x80 + v / 0x40 % 0x40), octet (0x80 + v % 0x40)]

/-- The octets of a text. -/
def encode (t : Text) : List UInt8 :=
  t.flatMap encodeChar

/-- An open sequence: the bits read so far, the range in which the next octet
has to lie, and how many octets are due after that one. -/
structure OpenSequence where
  bits : Nat
  low : Nat
  high : Nat
  more : Nat
  low_ge : 0x80 ≤ low
  deriving DecidableEq

/-- An open sequence whose next octet may be any that continues a sequence. -/
def OpenSequence.plain (bits more : Nat) : OpenSequence :=
  ⟨bits, 0x80, 0xBF, more, by decide⟩

/-- What an octet starts when no sequence is open: a character of its own, a
longer sequence, or nothing. -/
inductive Start where
  | char (c : Char)
  | sequence (s : OpenSequence)
  | stray

/-- What an octet starts.  The range of the second octet leaves out overlong
forms, surrogates and values beyond the last code point. -/
def start (b : UInt8) : Start :=
  let n := b.toNat
  if n < 0x80 then .char (Char.ofNat n)
  else if n < 0xC2 then .stray
  else if n < 0xE0 then .sequence (.plain (n - 0xC0) 0)
  else if n = 0xE0 then .sequence ⟨0, 0xA0, 0xBF, 1, by decide⟩
  else if n = 0xED then .sequence ⟨0xD, 0x80, 0x9F, 1, by decide⟩
  else if n < 0xF0 then .sequence (.plain (n - 0xE0) 1)
  else if n = 0xF0 then .sequence ⟨0, 0x90, 0xBF, 2, by decide⟩
  else if n < 0xF4 then .sequence (.plain (n - 0xF0) 2)
  else if n = 0xF4 then .sequence ⟨4, 0x80, 0x8F, 2, by decide⟩
  else .stray

/-- The sequence being read, if there is one. -/
abbrev State := Option OpenSequence

/-- Read an octet when no sequence is open: the characters it completes and the
sequence it leaves open. -/
def stepFresh (b : UInt8) : Text × State :=
  match start b with
  | .char c => ([c], none)
  | .sequence s => ([], some s)
  | .stray => ([replacement], none)

/-- Read one octet: the characters it completes and the sequence it leaves
open. -/
def step (state : State) (b : UInt8) : Text × State :=
  match state with
  | none => stepFresh b
  | some s =>
      if s.low ≤ b.toNat ∧ b.toNat ≤ s.high then
        let bits := s.bits * 0x40 + (b.toNat - 0x80)
        match s.more with
        | 0 => ([Char.ofNat bits], none)
        | more + 1 => ([], some (.plain bits more))
      else (replacement :: (stepFresh b).1, (stepFresh b).2)

/-- What is left to write when the octets end. -/
def finish : State → Text
  | none => []
  | some _ => [replacement]

/-- Read octets from a state on. -/
def decodeFrom : State → List UInt8 → Text
  | state, [] => finish state
  | state, b :: bs => (step state b).1 ++ decodeFrom (step state b).2 bs

/-- The text of any octets: each longest part that begins a sequence and does
not end it, and each octet that begins none, is one replacement character. -/
def decode (bs : List UInt8) : Text :=
  decodeFrom none bs

/-- An octet of the first 128 ends whatever sequence is open and is a character of its
own. -/
theorem step_ascii (state : State) {b : UInt8} (hb : b.toNat < 0x80) :
    step state b = (finish state ++ [Char.ofNat b.toNat], none) := by
  have hfresh : stepFresh b = ([Char.ofNat b.toNat], none) := by
    simp [stepFresh, start, hb]
  cases state with
  | none => exact hfresh
  | some s =>
      have hlow : ¬ (s.low ≤ b.toNat ∧ b.toNat ≤ s.high) := by
        have := s.low_ge
        omega
      rw [step, if_neg hlow, hfresh]
      rfl

example : decode [0xE2, 0x82, 0x28] = [replacement, '('] := by decide

example : decode [0xED, 0xA0, 0x80] = [replacement, replacement, replacement] := by decide

end Utf8

end BranchLabels
