import BranchLabels.Proofs.ExactTarget
import BranchLabels.Proofs.Report

/-!
# Distances do not depend on the place

When all instructions of a list are moved by one distance and none of them names its
target by an address, each target that is an address moves along.  Sums that leave the
range of a word, and targets below or beyond the addresses, may come and go with the
place; none of them is the address of an instruction, so labels and labelled lines do
not show it.

Main results:

- Theorem `Instruction.targetAddress?_eq_some_iff_distance`: where an instruction that
  names no address goes, without regard to the range of a word.
- Theorem `LabelTable.keys_build_move`: the labelled addresses move along.
- Theorem `LabelTable.distances_are_position_independent`: labels and labelled lines of
  the moved instructions.
-/

namespace BranchLabels

open Text

/-! ## Moved addresses -/

namespace Address

/-- The address at a distance from an address, when that is an address. -/
def move (k : Int) (a : Address) : Address :=
  UInt32.ofNat ((a.toNat : Int) + k).toNat

/-- There is an address at a distance from an address. -/
def Movable (k : Int) (a : Address) : Prop :=
  0 ≤ (a.toNat : Int) + k ∧ (a.toNat : Int) + k < 2 ^ 32

instance (k : Int) (a : Address) : Decidable (a.Movable k) :=
  inferInstanceAs (Decidable (_ ∧ _))

theorem toNat_move {k : Int} {a : Address} (h : a.Movable k) :
    ((a.move k).toNat : Int) = a.toNat + k := by
  obtain ⟨hlow, hhigh⟩ := h
  have hlt : ((a.toNat : Int) + k).toNat < UInt32.size := by
    unfold UInt32.size
    omega
  rw [move, UInt32.toNat_ofNat_of_lt' hlt]
  exact Int.toNat_of_nonneg hlow

/-- Addresses keep their order when they are moved together. -/
theorem move_lt_move {k : Int} {a b : Address} (ha : a.Movable k) (hb : b.Movable k)
    (h : a < b) : a.move k < b.move k := by
  have hmoved := toNat_move ha
  have hmoved' := toNat_move hb
  rw [UInt32.lt_iff_toNat_lt] at h ⊢
  omega

end Address

namespace Instruction

/-- An instruction with its address moved and all else kept. -/
def move (k : Int) (i : Instruction) : Instruction :=
  { i with address := i.address.move k }

/-- An instruction names its target, if it does so by a number, by its distance. -/
def RelativeOnly (isa : Isa) (i : Instruction) : Prop :=
  isa.isControlFlow i.mnemonic = true → ∀ l ∈ i.literal?, l.mode ≠ .absolute

instance (isa : Isa) (i : Instruction) : Decidable (i.RelativeOnly isa) :=
  inferInstanceAs (Decidable (_ → _))

/-! ## Targets at a distance -/

theorem exactPlace_of_ne_absolute {i : Instruction} {l : Literal} (h : l.mode ≠ .absolute) :
    i.exactPlace l = i.address.toNat + l.value := by
  unfold exactPlace
  split
  · contradiction
  · rfl

/-- An instruction that names no address goes to one exactly when its last operand is the
distance to there.  That the sum is a word need not be asked, since all addresses are. -/
theorem targetAddress?_eq_some_iff_distance {isa : Isa} {i : Instruction}
    (h : i.RelativeOnly isa) {a : Address} :
    i.targetAddress? isa = some a ↔
      isa.isControlFlow i.mnemonic = true ∧
        ∃ l, i.literal? = some l ∧ (a.toNat : Int) = i.address.toNat + l.value := by
  rw [targetAddress?_eq_some_iff]
  constructor
  · rintro ⟨t, ht, ha⟩
    obtain ⟨kind, cut, l, place, hkind, hcut, hl, hplace, rfl⟩ := target?_eq_some_iff.1 ht
    have hflow : isa.isControlFlow i.mnemonic = true := by
      rw [Isa.isControlFlow, hkind]
      rfl
    have hliteral : i.literal? = some l := Option.bind_eq_some_iff.2 ⟨cut, hcut, hl⟩
    obtain ⟨rfl, -⟩ := place?_eq_some_iff.1 hplace
    exact ⟨hflow, l, hliteral, ha.symm.trans (exactPlace_of_ne_absolute (h hflow l hliteral))⟩
  · rintro ⟨hflow, l, hliteral, ha⟩
    obtain ⟨kind, hkind⟩ := Option.isSome_iff_exists.1 hflow
    obtain ⟨cut, hcut, hl⟩ := Option.bind_eq_some_iff.1 hliteral
    have hplace : i.exactPlace l = a.toNat :=
      (exactPlace_of_ne_absolute (h hflow l hliteral)).trans ha.symm
    exact ⟨_, target?_eq_some_iff.2 ⟨kind, cut, l, a.toNat, hkind, hcut, hl,
      place?_eq_some_iff.2 ⟨hplace, fun _ => isWord_toNat a⟩, rfl⟩, rfl⟩

/-- The target of a moved instruction is the target moved by the same distance. -/
theorem targetAddress?_move {isa : Isa} {i : Instruction} (h : i.RelativeOnly isa) {k : Int}
    (hhere : i.address.Movable k) {a : Address} (hthere : a.Movable k) :
    (i.move k).targetAddress? isa = some (a.move k) ↔ i.targetAddress? isa = some a := by
  have hmoved : (i.move k).RelativeOnly isa := h
  have hliteral : (i.move k).literal? = i.literal? := rfl
  have haddress : ((i.move k).address.toNat : Int) = i.address.toNat + k :=
    Address.toNat_move hhere
  have hdistance : ∀ l : Literal,
      ((a.move k).toNat : Int) = (i.move k).address.toNat + l.value ↔
        (a.toNat : Int) = i.address.toNat + l.value := by
    intro l
    rw [Address.toNat_move hthere, haddress]
    omega
  rw [targetAddress?_eq_some_iff_distance hmoved, targetAddress?_eq_some_iff_distance h]
  simp only [hliteral, hdistance]
  rfl

/-! ## Lines of moved instructions -/

/-- There is a place for a label in a line or there is none, whatever its name. -/
theorem splice?_cases (i : Instruction) (cut : OperandCut) :
    (∀ name, i.splice? cut name = none) ∨
      ∃ before after, ∀ name, i.splice? cut name = some (before ++ name ++ after) := by
  unfold splice?
  split
  · next before _ _ after _ _ => exact .inr ⟨i.lead ++ before, after, fun _ => rfl⟩
  · exact .inl fun _ => rfl

/-- Whether a label is put into a line depends on whether there is one, not on its name
and not on the address of the instruction. -/
theorem map_labelled_write_move {isa : Isa} {labels moved : LabelTable} {i : Instruction}
    {k : Int}
    (h : ((i.move k).label? isa moved).isSome = (i.label? isa labels).isSome) :
    ((i.move k).write isa moved).map (·.labelled) = (i.write isa labels).map (·.labelled) := by
  have hsplice : ∀ cut name, (i.move k).splice? cut name = i.splice? cut name :=
    fun _ _ => rfl
  have hline : (i.move k).line = i.line := rfl
  have hoperands : (i.move k).operands = i.operands := rfl
  simp only [write, hsplice, hline, hoperands]
  cases hname : i.label? isa labels with
  | none =>
      have hnone : (i.move k).label? isa moved = none := by
        rwa [hname, Option.isSome_none, Option.isSome_eq_false_iff, Option.isNone_iff_eq_none] at h
      rw [hnone]
      rfl
  | some name =>
      obtain ⟨other, hother⟩ : ∃ other, (i.move k).label? isa moved = some other := by
        rwa [hname, Option.isSome_some, Option.isSome_iff_exists] at h
      rw [hother]
      cases lastOperand? i.operands with
      | none => rfl
      | some cut =>
          rcases splice?_cases i cut with hnone | ⟨before, after, hsome⟩
          · simp only [hnone]
          · simp only [hsome]
            rfl

end Instruction

/-! ## The moved table -/

namespace LabelTable

/-- All instructions of a list can be moved by a distance, and none names its target by
an address. -/
structure Relocatable (isa : Isa) (k : Int) (is : List Instruction) : Prop where
  movable : ∀ i ∈ is, i.address.Movable k
  relative : ∀ i ∈ is, i.RelativeOnly isa

variable {isa : Isa} {k : Int} {is : List Instruction}

/-- The addresses of moved instructions are the moved addresses. -/
theorem hasAddress_map_move {b : Address} :
    HasAddress (is.map (Instruction.move k)) b ↔ ∃ a, HasAddress is a ∧ a.move k = b := by
  constructor
  · rintro ⟨j, hj, rfl⟩
    obtain ⟨i, hi, rfl⟩ := List.mem_map.1 hj
    exact ⟨i.address, ⟨i, hi, rfl⟩, rfl⟩
  · rintro ⟨a, ⟨i, hi, rfl⟩, rfl⟩
    exact ⟨i.move k, List.mem_map_of_mem hi, rfl⟩

theorem Relocatable.movable_of_hasAddress (h : Relocatable isa k is) {a : Address}
    (ha : HasAddress is a) : a.Movable k := by
  obtain ⟨i, hi, rfl⟩ := ha
  exact h.movable i hi

/-- The label that a moved instruction asks for is the moved one. -/
theorem Relocatable.alignedTarget?_move (h : Relocatable isa k is) {i : Instruction}
    (hi : i ∈ is) :
    alignedTarget? isa (is.map (Instruction.move k)) (i.move k) =
      (alignedTarget? isa is i).map (Address.move k) := by
  have htarget : ∀ a, HasAddress is a →
      ((i.move k).targetAddress? isa = some (a.move k) ↔ i.targetAddress? isa = some a) :=
    fun a ha => Instruction.targetAddress?_move (h.relative i hi) (h.movable i hi)
      (h.movable_of_hasAddress ha)
  apply Option.ext
  intro b
  rw [alignedTarget?_eq_some_iff, hasAddress_map_move, Option.map_eq_some_iff]
  constructor
  · rintro ⟨hb, a, ha, rfl⟩
    exact ⟨a, alignedTarget?_eq_some_iff.2 ⟨(htarget a ha).1 hb, ha⟩, rfl⟩
  · rintro ⟨a, haligned, rfl⟩
    obtain ⟨htargets, ha⟩ := alignedTarget?_eq_some_iff.1 haligned
    exact ⟨(htarget a ha).2 htargets, a, ha, rfl⟩

theorem Relocatable.alignedTargets_move (h : Relocatable isa k is) :
    (is.map (Instruction.move k)).filterMap
        (alignedTarget? isa (is.map (Instruction.move k))) =
      (is.filterMap (alignedTarget? isa is)).map (Address.move k) := by
  rw [List.filterMap_map, List.map_filterMap]
  exact List.filterMap_congr fun i hi => h.alignedTarget?_move hi

theorem Relocatable.movable_of_mem_keys (h : Relocatable isa k is) {stem : Text} {a : Address}
    (ha : a ∈ (build isa is stem).keys) : a.Movable k :=
  h.movable_of_hasAddress (mem_keys_build_iff.1 ha).2

/-- The labelled addresses move along, in their order. -/
theorem keys_build_move (h : Relocatable isa k is) (stem : Text) :
    (build isa (is.map (Instruction.move k)) stem).keys =
      (build isa is stem).keys.map (Address.move k) := by
  have hmoved : ((build isa is stem).keys.map (Address.move k)).Pairwise (· < ·) := by
    rw [List.pairwise_map]
    apply (SortedMap.pairwise_keys _).imp_of_mem
    intro a b ha hb hlt
    exact Address.move_lt_move (h.movable_of_mem_keys ha) (h.movable_of_mem_keys hb) hlt
  apply (SortedMap.pairwise_keys _).eq_of_mem_iff hmoved
  intro b
  simp only [List.mem_map, mem_keys_build_iff, ← mem_alignedTargets_iff]
  rw [h.alignedTargets_move, List.mem_map]

/-- A moved instruction gets a label when it did before. -/
theorem Relocatable.isSome_label?_move (h : Relocatable isa k is) {i : Instruction}
    (hi : i ∈ is) (stem : Text) :
    ((i.move k).label? isa (build isa (is.map (Instruction.move k)) stem)).isSome =
      (i.label? isa (build isa is stem)).isSome := by
  have hmoved : i.move k ∈ is.map (Instruction.move k) := List.mem_map_of_mem hi
  rw [← Report.isLabelled_eq, ← Report.isLabelled_eq, Report.isLabelled_build hi,
    Report.isLabelled_build hmoved, h.alignedTarget?_move hi, Option.isSome_map]

/-- When instructions that name no address are moved together, the table has the moved
addresses with their names and no other, and a label is put into the line of each of them
exactly when one was put into it before. -/
theorem distances_are_position_independent (h : Relocatable isa k is) (stem : Text) :
    let js := is.map (Instruction.move k)
    (∀ i ∈ is, ((i.move k).address.toNat : Int) = i.address.toNat + k) ∧
      (build isa js stem).entries =
        ((build isa is stem).keys.map fun a => (a.move k, labelName stem (a.move k))) ∧
      (∀ a ∈ (build isa is stem).keys, ((a.move k).toNat : Int) = a.toNat + k) ∧
      js.map (fun j => (j.write isa (build isa js stem)).map (·.labelled)) =
        is.map fun i => (i.write isa (build isa is stem)).map (·.labelled) := by
  intro js
  refine ⟨?_, ?_, ?_, ?_⟩
  · intro i hi
    exact Address.toNat_move (h.movable i hi)
  · rw [entries_build, keys_build_move h, List.map_map]
    rfl
  · intro a ha
    exact Address.toNat_move (h.movable_of_mem_keys ha)
  · rw [List.map_map]
    apply List.map_congr_left
    intro i hi
    exact Instruction.map_labelled_write_move (h.isSome_label?_move hi stem)

/-- A branch to the jump after it, a jump below the addresses once it is moved down by
16, and a jump whose sum is a word only then. -/
def straddlingCode : List Instruction :=
  [⟨1, 0x10, [], "bnez".toList, "a0, 8".toList, [], "a0, 8".toList⟩,
    ⟨2, 0x18, [], "j".toList, "-24".toList, [], "-24".toList⟩,
    ⟨3, 0x1C, [], "j".toList, "9223372036854775790".toList, [], "9223372036854775790".toList⟩]

/-- One jump leaves the addresses and the other one gets a target, and neither shows. -/
theorem distances_are_position_independent_sample :
    Relocatable .rv32 (-16) straddlingCode ∧
      straddlingCode.map (·.target? .rv32) =
        [some ⟨.branch, .relative, 0x18⟩, some ⟨.jump, .relative, 0⟩, none] ∧
      (straddlingCode.map (Instruction.move (-16))).map (·.target? .rv32) =
        [some ⟨.branch, .relative, 8⟩, some ⟨.jump, .relative, -16⟩,
          some ⟨.jump, .relative, 9223372036854775802⟩] ∧
      (build .rv32 (straddlingCode.map (Instruction.move (-16))) "L".toList).entries =
        [(8, "L00000008".toList)] ∧
      (straddlingCode.map (Instruction.move (-16))).map
          (fun j => (j.write .rv32 (build .rv32 (straddlingCode.map (Instruction.move (-16)))
            "L".toList)).map (·.labelled)) = [.ok true, .ok false, .ok false] := by
  have hrelocatable : Relocatable .rv32 (-16) straddlingCode := ⟨by decide, by decide⟩
  obtain ⟨-, hentries, -, hlabelled⟩ :=
    distances_are_position_independent hrelocatable "L".toList
  refine ⟨hrelocatable, by decide +kernel, by decide +kernel, ?_, ?_⟩
  · rw [hentries]
    decide +kernel
  · rw [hlabelled]
    decide +kernel

end LabelTable

end BranchLabels
