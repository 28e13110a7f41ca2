import BranchLabels.Proofs.Declarations
import BranchLabels.Rv32
import Mathlib.Data.List.Lex

/-!
# Label names in order

A label name ends with the digits of its address, and there are always eight of
them.  So a name tells its prefix and its address, whatever the prefix ends with,
and names with one prefix are in the order of their addresses.

Main results:

- Theorem `hexDigits_lt_iff`: digits to a fixed width are in the order of the
  numbers they are written for.
- Theorem `labelName_lt_iff`: so are label names with one prefix.
- Theorem `LabelTable.names_tell_addresses`: names of labels are injective, and in a
  label table they ascend with the addresses.
-/

namespace BranchLabels

namespace Text

/-! ## Digits in order -/

/-- The first difference of two texts of one length decides, whatever follows
them. -/
theorem append_lt_append_of_lt {s t : Text} (h : s < t) (hlength : s.length = t.length)
    (u v : Text) : s ++ u < t ++ v := by
  induction h with
  | nil => simp at hlength
  | rel hlt => exact .rel hlt
  | cons _ ih => exact .cons (ih (Nat.succ.inj hlength))

/-- A larger digit is a later character. -/
theorem digitChar_lt_digitChar {m n : Nat} (h : m < n) (hn : n < 16) :
    Nat.digitChar m < Nat.digitChar n := by
  have hall : ∀ n < 16, ∀ m < n, Nat.digitChar m < Nat.digitChar n := by decide
  exact hall n hn m h

/-- A larger number that fits a width has later digits. -/
theorem hexDigits_lt_of_lt {width m n : Nat} (h : m < n) (hn : n < 16 ^ width) :
    hexDigits width m < hexDigits width n := by
  induction width generalizing m n with
  | zero =>
      rw [Nat.pow_zero] at hn
      omega
  | succ width ih =>
      rw [hexDigits, hexDigits]
      by_cases hfront : m / 16 = n / 16
      · -- the numbers differ in their last digits only
        have hlast : m % 16 < n % 16 := by omega
        rw [hfront]
        apply List.Lex.append_left
        exact .rel (digitChar_lt_digitChar hlast (Nat.mod_lt n (by decide)))
      · have hlt : m / 16 < n / 16 := by omega
        have hfits : n / 16 < 16 ^ width := by
          rw [Nat.pow_succ] at hn
          omega
        exact append_lt_append_of_lt (ih hlt hfits) (by simp) _ _

/-- Digits to a fixed width are in the order of the numbers they are written
for. -/
theorem hexDigits_lt_iff {width m n : Nat} (hm : m < 16 ^ width) (hn : n < 16 ^ width) :
    hexDigits width m < hexDigits width n ↔ m < n := by
  constructor
  · intro h
    by_contra hle
    rcases Nat.lt_or_eq_of_le (Nat.le_of_not_lt hle) with hlt | rfl
    · exact List.lt_asymm h (hexDigits_lt_of_lt hlt hm)
    · exact List.lt_irrefl _ h
  · intro h
    exact hexDigits_lt_of_lt h hn

/-- The digits that are written are those of the lower case. -/
theorem lower_of_mem_hexDigits {width n : Nat} {c : Char} (hc : c ∈ hexDigits width n) :
    ('0' ≤ c ∧ c ≤ '9') ∨ ('a' ≤ c ∧ c ≤ 'f') := by
  have hall : ∀ d < 16, ('0' ≤ Nat.digitChar d ∧ Nat.digitChar d ≤ '9') ∨
      ('a' ≤ Nat.digitChar d ∧ Nat.digitChar d ≤ 'f') := by
    decide
  obtain ⟨d, hd, rfl⟩ := exists_digitChar_of_mem_hexDigits hc
  exact hall d hd

end Text

open Text

/-! ## Names in order -/

/-- Label names with one prefix are in the order of their addresses. -/
theorem labelName_lt_iff {stem : Text} {a b : Address} :
    labelName stem a < labelName stem b ↔ a < b := by
  have hfits : ∀ c : Address, c.toNat < 16 ^ 8 := fun c => c.toNat_lt
  have hdigits : hexDigits 8 a.toNat < hexDigits 8 b.toNat ↔ a < b :=
    (hexDigits_lt_iff (hfits a) (hfits b)).trans UInt32.lt_iff_toNat_lt.symm
  rw [← hdigits]
  unfold labelName
  induction stem with
  | nil => exact Iff.rfl
  | cons c stem ih =>
      rw [List.cons_append, List.cons_append, List.cons_lt_cons_iff]
      simpa using ih

namespace LabelTable

/-- A label name tells its prefix and its address: it is the prefix and eight
lower-case digits that stand for the address.  So no two addresses of a label table
have one name, and the names of a table ascend with its addresses. -/
theorem names_tell_addresses :
    (∀ (stem stem' : Text) (a b : Address),
      labelName stem a = labelName stem' b ↔ stem = stem' ∧ a = b) ∧
    (∀ (stem : Text) (a : Address), ∃ digits, labelName stem a = stem ++ digits ∧
      digits.length = 8 ∧ (∀ c ∈ digits, ('0' ≤ c ∧ c ≤ '9') ∨ ('a' ≤ c ∧ c ≤ 'f')) ∧
      IsHexNumeral digits a.toNat) ∧
    (∀ (isa : Isa) (is : List Instruction) (stem : Text),
      (∀ a b name other, (build isa is stem).get? a = some name →
        (build isa is stem).get? b = some other →
          (name = other ↔ a = b) ∧ (name < other ↔ a < b)) ∧
      (build isa is stem).names.Pairwise (· < ·)) := by
  refine ⟨fun stem stem' a b => labelName_inj, ?_, ?_⟩
  · intro stem a
    exact ⟨hexDigits 8 a.toNat, rfl, length_hexDigits 8 a.toNat,
      fun c hc => lower_of_mem_hexDigits hc, isHexNumeral_hexDigits (by decide) a.toNat_lt⟩
  · intro isa is stem
    constructor
    · intro a b name other hname hother
      obtain ⟨-, -, rfl⟩ := get?_build_eq_some_iff.1 hname
      obtain ⟨-, -, rfl⟩ := get?_build_eq_some_iff.1 hother
      exact ⟨labelName_inj.trans (and_iff_right rfl), labelName_lt_iff⟩
    · rw [names_build, List.pairwise_map]
      exact (SortedMap.pairwise_keys _).imp labelName_lt_iff.2

/-- Two jumps to each other, at addresses with different numbers of digits. -/
def crossedJumps : List Instruction :=
  [⟨1, 0x10, [], "j".toList, "0xf".toList, [], []⟩, ⟨2, 0xF, [], "j".toList, "1".toList, [], []⟩]

/-- The names of the two jumps are in the order of their addresses, also after a prefix
that ends like an address. -/
theorem names_tell_addresses_sample :
    (build .rv32 crossedJumps "a1".toList).get? 0xF = some "a10000000f".toList ∧
      (build .rv32 crossedJumps "a1".toList).get? 0x10 = some "a100000010".toList ∧
      "a10000000f".toList < "a100000010".toList ∧
      labelName "a1".toList 0xF ≠ labelName "a".toList 0xF := by
  obtain ⟨hinj, -, hbuild⟩ := names_tell_addresses
  have hfirst : (build .rv32 crossedJumps "a1".toList).get? 0xF =
      some "a10000000f".toList := by
    decide +kernel
  have hsecond : (build .rv32 crossedJumps "a1".toList).get? 0x10 =
      some "a100000010".toList := by
    decide +kernel
  have horder := (hbuild .rv32 crossedJumps "a1".toList).1 _ _ _ _ hfirst hsecond
  refine ⟨hfirst, hsecond, horder.2.2 (by decide), ?_⟩
  rw [ne_eq, hinj]
  decide

end LabelTable

end BranchLabels
