import BranchLabels.LabelTable
import BranchLabels.Proofs.SortedMap

/-!
# What a label table holds

The label table of a list of instructions has a label for each address that is
both the target and the address of an instruction of the list, and no other.  So
the table depends on the set of instructions alone.

Main results:

- Theorem `get?_build_eq_some_iff`: which addresses have a label, and which.
- Theorem `build_holds_exactly_aligned_targets`: the table in full, with its
  order, its size and its independence of the order of the instructions.
-/

namespace BranchLabels

/-- An instruction has a target in the 32-bit range exactly when its target is an
address. -/
theorem Instruction.targetAddress?_eq_some_iff {isa : Isa} {i : Instruction} {a : Address} :
    i.targetAddress? isa = some a ↔ ∃ t, i.target? isa = some t ∧ t.address = a.toNat := by
  rw [targetAddress?, Option.bind_eq_some_iff]
  constructor
  · rintro ⟨t, ht, ha⟩
    exact ⟨t, ht, (Address.ofInt?_eq_some_iff.1 ha).symm⟩
  · rintro ⟨t, ht, ha⟩
    exact ⟨t, ht, Address.ofInt?_eq_some_iff.2 ha.symm⟩

namespace LabelTable

/-- Some instruction of a list transfers control to an address. -/
def IsTarget (isa : Isa) (is : List Instruction) (a : Address) : Prop :=
  ∃ i ∈ is, ∃ t, i.target? isa = some t ∧ t.address = a.toNat

/-! ## Tables of addresses -/

/-- A table that gives each address of a list its name finds these names. -/
theorem lookup_map_pair {β : Type} (f : Address → β) (as : List Address) (a : Address) :
    (as.map fun b => (b, f b)).lookup a = if a ∈ as then some (f a) else none := by
  induction as with
  | nil => rfl
  | cons b as ih =>
      rw [List.map_cons, AssocList.lookup_cons_eq, ih]
      by_cases hab : a = b
      · simp [hab]
      · simp [hab]

/-- The table of some addresses has the labels of these. -/
theorem get?_ofAddresses (stem : Text) (as : List Address) (a : Address) :
    (ofAddresses stem as).get? a = if a ∈ as then some (labelName stem a) else none := by
  rw [ofAddresses, SortedMap.get?_ofList, ← List.map_reverse, lookup_map_pair]
  simp only [List.mem_reverse]

/-! ## The table of a list of instructions -/

/-- An instruction adds its target to the table exactly when an instruction of
the list stands there. -/
theorem alignedTarget?_eq_some_iff {isa : Isa} {is : List Instruction} {i : Instruction}
    {a : Address} :
    alignedTarget? isa is i = some a ↔ i.targetAddress? isa = some a ∧ HasAddress is a := by
  unfold alignedTarget?
  split
  · next b hb =>
    rw [hb]
    split
    · next hhas =>
      constructor
      · intro hab
        obtain rfl := Option.some.inj hab
        exact ⟨rfl, hhas⟩
      · exact fun hab => hab.1
    · next hnot =>
      constructor
      · intro hab
        contradiction
      · rintro ⟨hab, hhas⟩
        obtain rfl := Option.some.inj hab
        exact absurd hhas hnot
  · next hnone => simp [hnone]

/-- The addresses with a label are the targets that are addresses of
instructions. -/
theorem mem_alignedTargets_iff {isa : Isa} {is : List Instruction} {a : Address} :
    a ∈ is.filterMap (alignedTarget? isa is) ↔ IsTarget isa is a ∧ HasAddress is a := by
  rw [List.mem_filterMap]
  constructor
  · rintro ⟨i, hi, ha⟩
    obtain ⟨htarget, hhas⟩ := alignedTarget?_eq_some_iff.1 ha
    exact ⟨⟨i, hi, Instruction.targetAddress?_eq_some_iff.1 htarget⟩, hhas⟩
  · rintro ⟨⟨i, hi, htarget⟩, hhas⟩
    exact ⟨i, hi, alignedTarget?_eq_some_iff.2
      ⟨Instruction.targetAddress?_eq_some_iff.2 htarget, hhas⟩⟩

/-- Which addresses have a label, and which. -/
theorem get?_build_eq_some_iff {isa : Isa} {is : List Instruction} {stem name : Text}
    {a : Address} :
    (build isa is stem).get? a = some name ↔
      IsTarget isa is a ∧ HasAddress is a ∧ name = labelName stem a := by
  rw [build, get?_ofAddresses]
  split
  · next hmem =>
    obtain ⟨htarget, hhas⟩ := mem_alignedTargets_iff.1 hmem
    rw [Option.some.injEq]
    constructor
    · intro hname
      exact ⟨htarget, hhas, hname.symm⟩
    · exact fun h => h.2.2.symm
  · next hnot =>
    constructor
    · intro hname
      contradiction
    · rintro ⟨htarget, hhas, -⟩
      exact absurd (mem_alignedTargets_iff.2 ⟨htarget, hhas⟩) hnot

/-- The keys of the table are the targets that are addresses of instructions. -/
theorem mem_keys_build_iff {isa : Isa} {is : List Instruction} {stem : Text} {a : Address} :
    a ∈ (build isa is stem).keys ↔ IsTarget isa is a ∧ HasAddress is a := by
  rw [SortedMap.mem_keys_iff]
  constructor
  · rintro ⟨name, hname⟩
    obtain ⟨htarget, hhas, -⟩ := get?_build_eq_some_iff.1 hname
    exact ⟨htarget, hhas⟩
  · rintro ⟨htarget, hhas⟩
    exact ⟨labelName stem a, get?_build_eq_some_iff.2 ⟨htarget, hhas, rfl⟩⟩

/-- Each entry of the table names its address. -/
theorem entries_build (isa : Isa) (is : List Instruction) (stem : Text) :
    (build isa is stem).entries =
      (build isa is stem).keys.map fun a => (a, labelName stem a) := by
  have hname : ∀ e ∈ (build isa is stem).entries, (e.1, labelName stem e.1) = e := by
    rintro ⟨a, name⟩ hmem
    have hget := (SortedMap.mem_entries_iff _ a name).1 hmem
    obtain ⟨-, -, rfl⟩ := get?_build_eq_some_iff.1 hget
    rfl
  rw [SortedMap.keys, List.map_map]
  exact (List.map_id _).symm.trans (List.map_congr_left fun e he => (hname e he).symm)

/-- Lists with the same instructions have the same label table. -/
theorem build_congr {isa : Isa} {is js : List Instruction} (stem : Text)
    (h : ∀ i, i ∈ js ↔ i ∈ is) : build isa js stem = build isa is stem := by
  apply SortedMap.ext_get?
  intro a
  apply Option.ext
  intro name
  rw [get?_build_eq_some_iff, get?_build_eq_some_iff]
  simp only [IsTarget, HasAddress, h]

/-- The label table of a list of instructions is exactly the set of targets that
are addresses of instructions: look-up finds the label of each of them and
nothing else, the entries list each of them once in ascending order, their number
is the size, and neither the order of the instructions nor repeated ones
matter. -/
theorem build_holds_exactly_aligned_targets (isa : Isa) (is : List Instruction) (stem : Text) :
    (∀ a name, (build isa is stem).get? a = some name ↔
        IsTarget isa is a ∧ HasAddress is a ∧ name = labelName stem a) ∧
      (build isa is stem).entries =
        ((build isa is stem).keys.map fun a => (a, labelName stem a)) ∧
      (∀ a, a ∈ (build isa is stem).keys ↔ IsTarget isa is a ∧ HasAddress is a) ∧
      (build isa is stem).keys.Pairwise (· < ·) ∧
      (build isa is stem).size = {a | IsTarget isa is a ∧ HasAddress is a}.ncard ∧
      (∀ js : List Instruction, js.Perm is → build isa js stem = build isa is stem) ∧
      (∀ js : List Instruction, (∀ i, i ∈ js ↔ i ∈ is) →
        build isa js stem = build isa is stem) := by
  refine ⟨fun a name => get?_build_eq_some_iff, entries_build isa is stem,
    fun a => mem_keys_build_iff, SortedMap.pairwise_keys _, ?_, ?_, ?_⟩
  · rw [SortedMap.size_eq_ncard]
    congr 1
    ext a
    exact (SortedMap.mem_keys_iff _ a).symm.trans mem_keys_build_iff
  · intro js hperm
    exact build_congr stem fun i => hperm.mem_iff
  · intro js hmem
    exact build_congr stem hmem

end LabelTable

end BranchLabels
