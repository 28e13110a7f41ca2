import BranchLabels.Proofs.LabelTable
import BranchLabels.Proofs.Rewriting
import BranchLabels.Rv32

/-!
# Targets without limits

The target of an instruction is computed in signed 64-bit words, and there is none
when a numeral or a sum does not fit.  Numerals of any size and sums in the integers
give more targets, but none of these is an address: a numeral that names an address,
or its distance from one, is far smaller than a word.  So labels and labelled texts
are what they would be without limits.

Main results:

- Theorem `Literal.ofText?_eq_some_iff`: a literal is an exact one whose magnitude
  fits.
- Theorem `Instruction.target?_eq_some_iff_exact`: both ways to compute targets find
  the same addresses.
- Theorems `Resolver.build_eq` and `Resolver.labelledText_eq`: only the addresses that
  a resolver finds matter for the labels and the labelled text.
- Theorem `Resolver.exact_arithmetic_changes_nothing`: no label is lost to the limits of
  a word, and no sign is changed beyond them.
-/

namespace BranchLabels

open Text

/-! ## Numerals of any size -/

namespace Literal

/-- The magnitude of a numeral of any size: hexadecimal after `0x`, else decimal. -/
def exactMagnitude? : Text → Option Nat
  | '0' :: 'x' :: digits => readHex? digits
  | digits => readDecimal? digits

/-- Read a numeric operand of any size. -/
def exactOfText? : Text → Option Literal
  | '0' :: 'x' :: digits => (readHex? digits).map fun n : Nat => ⟨.absolute, n⟩
  | '-' :: numeral => (exactMagnitude? numeral).map fun n : Nat => ⟨.relative, -n⟩
  | numeral => (exactMagnitude? numeral).map fun n : Nat => ⟨.relative, n⟩

theorem bind_fit?_eq_some_iff {o : Option Nat} {n : Nat} :
    o.bind fit? = some n ↔ o = some n ∧ n ≤ maxWord := by
  cases o with
  | none => simp
  | some m =>
      simp only [Option.bind_some, fit?, Option.ite_none_right_eq_some, Option.some.injEq]
      constructor
      · rintro ⟨hle, rfl⟩
        exact ⟨rfl, hle⟩
      · rintro ⟨rfl, hle⟩
        exact ⟨hle, rfl⟩

/-- A magnitude is an exact one that fits. -/
theorem magnitude?_eq_some_iff {t : Text} {n : Nat} :
    magnitude? t = some n ↔ exactMagnitude? t = some n ∧ n ≤ maxWord := by
  fun_cases exactMagnitude? t with
  | case1 digits => exact bind_fit?_eq_some_iff
  | case2 _ hdecimal =>
      rw [magnitude?.eq_2 t hdecimal]
      exact bind_fit?_eq_some_iff

/-- When magnitudes are the exact ones that fit, so are the literals with them, whatever
their sign. -/
theorem map_eq_some_iff_of_fits {o whole : Option Nat}
    (h : ∀ n, o = some n ↔ whole = some n ∧ n ≤ maxWord) (mode : Addressing)
    {sign : Int → Int} (hsign : ∀ n : Nat, (sign n).natAbs = n) {l : Literal} :
    (do let n ← o; pure (n : Int)).map (fun n => (⟨mode, sign n⟩ : Literal)) = some l ↔
      whole.map (fun n : Nat => (⟨mode, sign n⟩ : Literal)) = some l ∧
        l.value.natAbs ≤ maxWord := by
  have hlift : (do let n ← o; pure (n : Int)).map (fun n => (⟨mode, sign n⟩ : Literal)) =
      o.map (fun n : Nat => (⟨mode, sign n⟩ : Literal)) := by
    cases o <;> rfl
  rw [hlift]
  simp only [Option.map_eq_some_iff, h]
  constructor
  · rintro ⟨n, ⟨hwhole, hle⟩, rfl⟩
    exact ⟨⟨n, hwhole, rfl⟩, by rwa [hsign n]⟩
  · rintro ⟨⟨n, hwhole, rfl⟩, hle⟩
    exact ⟨n, ⟨hwhole, by rwa [hsign n] at hle⟩, rfl⟩

/-- A literal is an exact one whose magnitude fits. -/
theorem ofText?_eq_some_iff {t : Text} {l : Literal} :
    ofText? t = some l ↔ exactOfText? t = some l ∧ l.value.natAbs ≤ maxWord := by
  have hplus : ∀ n : Nat, ((n : Int)).natAbs = n := Int.natAbs_natCast
  have hminus : ∀ n : Nat, (-(n : Int)).natAbs = n := by
    intro n
    rw [Int.natAbs_neg, Int.natAbs_natCast]
  fun_cases exactOfText? t with
  | case1 digits =>
      exact map_eq_some_iff_of_fits (fun n => bind_fit?_eq_some_iff) .absolute hplus
  | case2 numeral =>
      exact map_eq_some_iff_of_fits (fun n => magnitude?_eq_some_iff) .relative hminus
  | case3 _ hhex hsigned =>
      rw [ofText?.eq_3 t hhex hsigned]
      exact map_eq_some_iff_of_fits (fun n => magnitude?_eq_some_iff) .relative hplus

end Literal

/-! ## Targets in the integers -/

namespace Instruction

/-- The place that a literal names when it stands in an instruction, computed in the
integers. -/
def exactPlace (i : Instruction) (l : Literal) : Int :=
  match l.mode with
  | .absolute => l.value
  | .relative => (i.address.toNat : Int) + l.value

/-- The last operand of an instruction as a number of any size. -/
def exactLiteral? (i : Instruction) : Option Literal :=
  (lastOperand? i.operands).bind fun cut => Literal.exactOfText? cut.token

/-- The target of an instruction, computed without limits. -/
def exactTarget? (isa : Isa) (i : Instruction) : Option Target :=
  match isa.flowKind? i.mnemonic, i.exactLiteral? with
  | some kind, some l => some ⟨kind, l.mode, i.exactPlace l⟩
  | _, _ => none

/-- A literal names a place when its sum is a word. -/
theorem place?_eq_some_iff {i : Instruction} {l : Literal} {place : Int} :
    i.place? l = some place ↔
      i.exactPlace l = place ∧ (l.mode = .relative → IsWord place) := by
  unfold place? exactPlace
  split
  · next hmode => simp [hmode]
  · next hmode =>
    simp only [Option.ite_none_right_eq_some, Option.some.injEq, hmode, true_imp_iff]
    constructor
    · rintro ⟨hword, rfl⟩
      exact ⟨rfl, hword⟩
    · rintro ⟨rfl, hword⟩
      exact ⟨hword, rfl⟩

/-- An instruction has an exact target when its mnemonic transfers control and its
last operand is a number of any size. -/
theorem exactTarget?_eq_some_iff {isa : Isa} {i : Instruction} {t : Target} :
    i.exactTarget? isa = some t ↔
      ∃ kind cut l, isa.flowKind? i.mnemonic = some kind ∧
        lastOperand? i.operands = some cut ∧ Literal.exactOfText? cut.token = some l ∧
          t = ⟨kind, l.mode, i.exactPlace l⟩ := by
  constructor
  · intro h
    unfold exactTarget? at h
    split at h
    · next kind l hkind hliteral =>
      obtain ⟨cut, hcut, hl⟩ := Option.bind_eq_some_iff.1 hliteral
      exact ⟨kind, cut, l, hkind, hcut, hl, (Option.some.inj h).symm⟩
    · contradiction
  · rintro ⟨kind, cut, l, hkind, hcut, hl, rfl⟩
    have hliteral : i.exactLiteral? = some l := by
      rw [exactLiteral?, hcut]
      exact hl
    simp [exactTarget?, hkind, hliteral]

/-- A literal that names an address is far smaller than a word. -/
theorem natAbs_le_maxWord_of_exactPlace {i : Instruction} {l : Literal} {a : Address}
    (h : i.exactPlace l = a.toNat) : l.value.natAbs ≤ maxWord := by
  have hhere : i.address.toNat < 2 ^ 32 := i.address.toNat_lt
  have hthere : a.toNat < 2 ^ 32 := a.toNat_lt
  unfold exactPlace at h
  unfold maxWord
  split at h <;> omega

/-- An address is a word. -/
theorem isWord_toNat (a : Address) : IsWord a.toNat := by
  have hlt : a.toNat < 2 ^ 32 := a.toNat_lt
  unfold IsWord maxWord
  omega

/-- Both ways to compute targets find the same addresses, with the same kind and the
same mode. -/
theorem target?_eq_some_iff_exact {isa : Isa} {i : Instruction} {t : Target} {a : Address}
    (h : t.address = a.toNat) : i.target? isa = some t ↔ i.exactTarget? isa = some t := by
  rw [target?_eq_some_iff, exactTarget?_eq_some_iff]
  constructor
  · rintro ⟨kind, cut, l, place, hkind, hcut, hl, hplace, rfl⟩
    obtain ⟨rfl, -⟩ := place?_eq_some_iff.1 hplace
    exact ⟨kind, cut, l, hkind, hcut, (Literal.ofText?_eq_some_iff.1 hl).1, rfl⟩
  · rintro ⟨kind, cut, l, hkind, hcut, hl, rfl⟩
    have hplace : i.exactPlace l = a.toNat := h
    have hfits : l.value.natAbs ≤ maxWord := natAbs_le_maxWord_of_exactPlace hplace
    refine ⟨kind, cut, l, i.exactPlace l, hkind, hcut, Literal.ofText?_eq_some_iff.2 ⟨hl, hfits⟩,
      place?_eq_some_iff.2 ⟨rfl, fun _ => ?_⟩, rfl⟩
    rw [hplace]
    exact isWord_toNat a

end Instruction

/-! ## Labels by any resolver -/

/-- A way to find the targets of instructions. -/
abbrev Resolver := Instruction → Option Target

namespace Resolver

variable (resolve : Resolver)

/-- The target of an instruction when it lies in the 32-bit range. -/
def address? (i : Instruction) : Option Address :=
  (resolve i).bind fun t => Address.ofInt? t.address

/-- The target of an instruction when it is the address of an instruction of the
list. -/
def alignedTarget? (is : List Instruction) (i : Instruction) : Option Address :=
  match resolve.address? i with
  | some a => if LabelTable.HasAddress is a then some a else none
  | none => none

/-- The label table of a list of instructions. -/
def build (is : List Instruction) (stem : Text) : LabelTable :=
  LabelTable.ofAddresses stem (is.filterMap (resolve.alignedTarget? is))

/-- The line of an instruction, with a label for its last operand when its target has
one. -/
def write (labels : LabelTable) (i : Instruction) : Except ListingError WrittenLine :=
  match (resolve.address? i).bind labels.get?, lastOperand? i.operands with
  | some name, some cut =>
      match i.splice? cut name with
      | some text => .ok ⟨text, true⟩
      | none => .error (.misplacedOperand i.line)
  | _, _ => .ok ⟨i.toText, false⟩

/-- The lines of the instructions, after instructions with given addresses. -/
def codeLines (labels : LabelTable) (config : Config) :
    List Address → List Instruction → Except ListingError (List Text)
  | _, [] => .ok []
  | earlier, i :: is =>
      match resolve.write labels i with
      | .error e => .error e
      | .ok line =>
          match codeLines labels config (i.address :: earlier) is with
          | .error e => .error e
          | .ok rest =>
              .ok (declarationAt config labels earlier i.address ++ line.text :: rest)

/-- The text of a labelled listing. -/
def labelledText (labels : LabelTable) (config : Config) (l : Listing) :
    Except ListingError Text :=
  (resolve.codeLines labels config [] l.instructions).map fun code =>
    unlines (l.header ++ bannerLines labels.size ++ code ++ l.trailer)

section Congruence

variable {resolve} {isa : Isa} (h : ∀ i, resolve.address? i = i.targetAddress? isa)

include h

/-- A resolver that finds the same addresses gives the same table. -/
theorem build_eq (is : List Instruction) (stem : Text) :
    resolve.build is stem = LabelTable.build isa is stem := by
  unfold build LabelTable.build
  congr 2
  funext i
  unfold alignedTarget? LabelTable.alignedTarget?
  rewrite [h i]
  rfl

/-- A resolver that finds the same addresses gives the same lines. -/
theorem write_eq (labels : LabelTable) (i : Instruction) :
    resolve.write labels i = i.write isa labels := by
  unfold write Instruction.write Instruction.label?
  rewrite [h i]
  rfl

theorem codeLines_eq (labels : LabelTable) (config : Config) (earlier : List Address)
    (is : List Instruction) :
    resolve.codeLines labels config earlier is =
      BranchLabels.codeLines isa labels config earlier is := by
  induction is generalizing earlier with
  | nil => rfl
  | cons i is ih =>
      rewrite [codeLines, BranchLabels.codeLines, write_eq h, ih]
      rfl

/-- A resolver that finds the same addresses gives the same labelled text. -/
theorem labelledText_eq (labels : LabelTable) (config : Config) (l : Listing) :
    resolve.labelledText labels config l = l.labelledText isa labels config := by
  rw [labelledText, codeLines_eq h, Listing.labelledText, Listing.labelledLines]
  cases BranchLabels.codeLines isa labels config [] l.instructions <;> rfl

end Congruence

/-- The exact resolver finds the same addresses. -/
theorem address?_exactTarget? (isa : Isa) (i : Instruction) :
    address? (Instruction.exactTarget? isa) i = i.targetAddress? isa := by
  apply Option.ext
  intro a
  rw [Instruction.targetAddress?_eq_some_iff, address?, Option.bind_eq_some_iff]
  constructor
  · rintro ⟨t, ht, ha⟩
    have haddress : t.address = a.toNat := (Address.ofInt?_eq_some_iff.1 ha).symm
    exact ⟨t, (Instruction.target?_eq_some_iff_exact haddress).2 ht, haddress⟩
  · rintro ⟨t, ht, haddress⟩
    exact ⟨t, (Instruction.target?_eq_some_iff_exact haddress).1 ht,
      Address.ofInt?_eq_some_iff.2 haddress.symm⟩

/-- Numerals of any size and sums in the integers change nothing: they find the same
targets among the addresses, they give the same label table, and they give the same
labelled text for every listing and every table.  The magnitude that a sign is put
before fits, so the signed value is a word. -/
theorem exact_arithmetic_changes_nothing (isa : Isa) :
    (∀ (i : Instruction) (a : Address) (t : Target), t.address = a.toNat →
      (i.target? isa = some t ↔ i.exactTarget? isa = some t)) ∧
    (∀ (is : List Instruction) (stem : Text),
      build (Instruction.exactTarget? isa) is stem = LabelTable.build isa is stem) ∧
    (∀ (l : Listing) (labels : LabelTable) (config : Config),
      labelledText (Instruction.exactTarget? isa) labels config l =
        l.labelledText isa labels config) ∧
    (∀ (numeral : Text) (n : Nat), Literal.magnitude? numeral = some n →
      Literal.ofText? ('-' :: numeral) = some ⟨.relative, -n⟩ ∧ IsWord n ∧ IsWord (-n)) := by
  refine ⟨fun i a t h => Instruction.target?_eq_some_iff_exact h,
    build_eq (address?_exactTarget? isa),
    fun l labels config => labelledText_eq (address?_exactTarget? isa) labels config l, ?_⟩
  intro numeral n hmagnitude
  have hle : n ≤ maxWord := (Literal.magnitude?_eq_some_iff.1 hmagnitude).2
  refine ⟨?_, ?_, ?_⟩
  · rw [Literal.ofText?, hmagnitude]
    rfl
  · unfold IsWord
    omega
  · unfold IsWord
    omega

/-- A jump over nearly the whole 32-bit range, to the address 8. -/
def longJump : Instruction :=
  ⟨1, 0xFFFFFFFF, [], "j".toList, "-4294967287".toList, [], []⟩

/-- A jump to the first number beyond a word. -/
def wildJump : Instruction :=
  ⟨2, 8, [], "j".toList, "0x8000000000000000".toList, [], []⟩

/-- Only without limits does the wild jump have a target, and the labels are those of
the long one all the same. -/
theorem exact_arithmetic_changes_nothing_sample :
    wildJump.target? .rv32 = none ∧
      wildJump.exactTarget? .rv32 = some ⟨.jump, .absolute, 2 ^ 63⟩ ∧
      longJump.exactTarget? .rv32 = some ⟨.jump, .relative, 8⟩ ∧
      (build (Instruction.exactTarget? .rv32) [longJump, wildJump] "L".toList).keys = [8] ∧
      IsWord (-(maxWord : Int)) := by
  obtain ⟨htarget, hbuild, -, hsign⟩ := exact_arithmetic_changes_nothing .rv32
  refine ⟨by decide +kernel, by decide +kernel, ?_, ?_, ?_⟩
  · exact (htarget longJump 8 ⟨.jump, .relative, 8⟩ rfl).1 (by decide +kernel)
  · rw [hbuild]
    decide +kernel
  · exact (hsign "9223372036854775807".toList maxWord (by decide +kernel)).2.2

end Resolver

end BranchLabels
