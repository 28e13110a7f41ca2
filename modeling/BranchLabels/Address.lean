import BranchLabels.Text.Numeral

/-!
# Addresses

Instructions have 32-bit addresses.  What an operand stands for is computed in
the integers and may fall outside of that range, or outside of the signed 64-bit
range in which it is computed.

Main results:

- Theorem `Address.ofInt?_eq_some_iff`: exactly the integers of the 32-bit range
  are addresses.
-/

namespace BranchLabels

/-- The 32-bit address of an instruction. -/
abbrev Address := UInt32

namespace Address

/-- The address of a number in the 32-bit range. -/
def ofNat? (n : Nat) : Option Address :=
  if h : n < UInt32.size then some (UInt32.ofNatLT n h) else none

/-- The address of an integer in the 32-bit range. -/
def ofInt? : Int → Option Address
  | .ofNat n => ofNat? n
  | .negSucc _ => none

/-- The address that a hexadecimal numeral stands for; any number of zeros may
stand in front. -/
def ofHex? (digits : Text) : Option Address :=
  (Text.readHex? digits).bind ofNat?

/-- Exactly the numbers of the 32-bit range are addresses. -/
theorem ofNat?_eq_some_iff {n : Nat} {a : Address} :
    ofNat? n = some a ↔ a.toNat = n := by
  unfold ofNat?
  split
  · next h =>
    rw [Option.some.injEq]
    constructor
    · rintro rfl
      exact UInt32.toNat_ofNatLT
    · rintro rfl
      exact UInt32.ofNatLT_toNat a
  · next h =>
    simp only [reduceCtorEq, false_iff]
    rintro rfl
    exact h a.toNat_lt

/-- Exactly the integers of the 32-bit range are addresses. -/
theorem ofInt?_eq_some_iff {i : Int} {a : Address} :
    ofInt? i = some a ↔ (a.toNat : Int) = i := by
  cases i with
  | ofNat n =>
      rw [ofInt?, ofNat?_eq_some_iff]
      exact Int.ofNat_inj.symm
  | negSucc n => simp only [ofInt?, reduceCtorEq]

end Address

/-! ## The range of computed values -/

/-- The largest value of a signed 64-bit word. -/
def maxWord : Nat := 0x7FFFFFFFFFFFFFFF

/-- Whether an integer is a signed 64-bit word. -/
def IsWord (i : Int) : Prop :=
  -(maxWord + 1 : Int) ≤ i ∧ i ≤ maxWord

instance (i : Int) : Decidable (IsWord i) :=
  inferInstanceAs (Decidable (_ ∧ _))

end BranchLabels
