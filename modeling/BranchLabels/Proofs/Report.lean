import BranchLabels.Proofs.Declarations
import BranchLabels.Report

/-!
# Reports agree with what is written and told

Whether the target of an instruction gets a label is decided when the table is
built, when the instruction is written, and when the report counts.  The three
decisions agree on every instruction of a listing, so the numbers of a report are
those of the labelled text and of the events.

Main results:

- Theorem `Report.isLabelled_build`: the report counts the instructions whose
  target has been put into the table.
- Theorem `Instruction.isChanged_eq`: an instruction is written differently exactly
  when it gets a label.
- Theorem `Report.sum_tally`: the numbers by kind add up to the number of targets.
- Theorem `LabelTable.countP_target?`: each target has a label or is told.
- Theorem `Labelling.report_agrees`: a report in terms of the text, the labels and
  the events.
-/

namespace BranchLabels

open Text

/-! ## Targets by kind -/

namespace Report

/-- Entries of zero do not matter for a sum. -/
theorem sum_filter_ne_zero (es : List (FlowKind × Nat)) :
    ((es.filter (·.2 ≠ 0)).map (·.2)).sum = (es.map (·.2)).sum := by
  induction es with
  | nil => rfl
  | cons e es ih =>
      by_cases he : e.2 = 0
      · simpa [he] using ih
      · simpa [he] using ih

/-- The numbers by kind add up to the number of all. -/
theorem sum_tally (kinds : List FlowKind) : ((tally kinds).map (·.2)).sum = kinds.length := by
  rw [tally, sum_filter_ne_zero, List.map_map]
  induction kinds with
  | nil => rfl
  | cons kind kinds ih =>
      rw [List.length_cons, ← ih]
      cases kind <;> simp [FlowKind.all] <;> omega

/-- Each kind that occurs has an entry with how often it does. -/
theorem mem_tally_iff {kinds : List FlowKind} {k : FlowKind} {n : Nat} :
    (k, n) ∈ tally kinds ↔ n = kinds.count k ∧ k ∈ kinds := by
  have hpos : kinds.count k ≠ 0 ↔ k ∈ kinds := by
    rw [← Nat.pos_iff_ne_zero, List.count_pos_iff]
  simp only [tally, List.mem_filter, List.mem_map, Prod.mk.injEq, decide_eq_true_eq]
  constructor
  · rintro ⟨⟨k', -, rfl, rfl⟩, hne⟩
    exact ⟨rfl, hpos.1 hne⟩
  · rintro ⟨rfl, hmem⟩
    exact ⟨⟨k, FlowKind.mem_all k, rfl, rfl⟩, hpos.2 hmem⟩

/-- No kind has two entries. -/
theorem nodup_tally (kinds : List FlowKind) : ((tally kinds).map (·.1)).Nodup := by
  have hall : (FlowKind.all.map fun k => (k, kinds.count k)).map (·.1) = FlowKind.all := by
    rw [List.map_map]
    exact List.map_id _
  have hsub : ((tally kinds).map (·.1)).Sublist FlowKind.all := by
    rw [tally, ← hall]
    exact List.filter_sublist.map _
  exact hsub.nodup (by decide)

end Report

/-! ## Targets with a label and targets that are told -/

namespace LabelTable

/-- A target that is the address of an instruction is a target. -/
theorem isSome_target?_of_alignedTarget? {isa : Isa} {is : List Instruction} {i : Instruction}
    {a : Address} (h : alignedTarget? isa is i = some a) : (i.target? isa).isSome = true := by
  obtain ⟨t, ht, -⟩ := Instruction.targetAddress?_eq_some_iff.1 (alignedTarget?_eq_some_iff.1 h).1
  exact Option.isSome_iff_exists.2 ⟨t, ht⟩

/-- Each target is the address of an instruction or is told. -/
theorem countP_target? (isa : Isa) (is : List Instruction) :
    is.countP (fun i => (i.target? isa).isSome) =
      is.countP (fun i => (alignedTarget? isa is i).isSome) + (strayTargets isa is).length := by
  have htarget : ∀ i a, alignedTarget? isa is i = some a → (i.target? isa).isSome = true :=
    fun _ _ => isSome_target?_of_alignedTarget?
  rw [strayTargets, List.length_filterMap_eq_countP]
  -- The count goes down to parts of the list, while the addresses stay those of all.
  generalize alignedTarget? isa is = aligned at htarget ⊢
  induction is with
  | nil => rfl
  | cons i is ih =>
      simp only [List.countP_cons, ih]
      cases haligned : aligned i with
      | none =>
          cases i.target? isa with
          | none => simp
          | some t => simp; omega
      | some a =>
          obtain ⟨t, ht⟩ := Option.isSome_iff_exists.1 (htarget i a haligned)
          simp [ht]
          omega

/-- There are at most as many labels as instructions whose target is the address of
an instruction. -/
theorem size_build_le (isa : Isa) (is : List Instruction) (stem : Text) :
    (build isa is stem).size ≤ is.countP fun i => (alignedTarget? isa is i).isSome := by
  have hsub : (build isa is stem).keys ⊆ is.filterMap (alignedTarget? isa is) :=
    fun a ha => mem_alignedTargets_iff.2 (mem_keys_build_iff.1 ha)
  have hle := ((SortedMap.nodup_keys _).subperm hsub).length_le
  rwa [SortedMap.length_keys, List.length_filterMap_eq_countP] at hle

end LabelTable

/-- The report counts the instructions whose target has been put into the table. -/
theorem Report.isLabelled_build {isa : Isa} {is : List Instruction} {i : Instruction}
    (hi : i ∈ is) (stem : Text) :
    isLabelled isa (LabelTable.build isa is stem) i =
      (LabelTable.alignedTarget? isa is i).isSome := by
  unfold isLabelled LabelTable.alignedTarget?
  cases htarget : i.targetAddress? isa with
  | none => rfl
  | some a =>
      have htargets : LabelTable.IsTarget isa is a :=
        ⟨i, hi, Instruction.targetAddress?_eq_some_iff.1 htarget⟩
      have hcontains : (LabelTable.build isa is stem).contains a = true ↔
          LabelTable.HasAddress is a := by
        unfold SortedMap.contains
        rw [Option.isSome_iff_exists, ← SortedMap.mem_keys_iff, LabelTable.mem_keys_build_iff]
        exact and_iff_right htargets
      by_cases hhas : LabelTable.HasAddress is a
      · simp [hhas, hcontains.2 hhas]
      · simpa [hhas] using fun htrue => hhas (hcontains.1 htrue)

/-- The report counts the instructions that get a label. -/
theorem Report.isLabelled_eq (isa : Isa) (labels : LabelTable) (i : Instruction) :
    isLabelled isa labels i = (i.label? isa labels).isSome := by
  unfold isLabelled Instruction.label?
  cases i.targetAddress? isa <;> rfl

/-! ## Lines that are written differently -/

namespace Instruction

/-- Whether the written line of an instruction differs from its own line. -/
def isChanged (isa : Isa) (labels : LabelTable) (i : Instruction) : Bool :=
  match i.write isa labels with
  | .ok line => line.text ≠ i.toText
  | .error _ => false

/-- A label is never the operand that it replaces, since that one is a number. -/
theorem relabelled_ne_toText {i : Instruction} (h : i.Placed) {isa : Isa} {labels : LabelTable}
    (hlabels : labels.Valid) {name : Text} {cut : OperandCut}
    (hname : i.label? isa labels = some name) (hcut : lastOperand? i.operands = some cut) :
    i.relabelled cut name ≠ i.toText := by
  intro heq
  obtain ⟨a, ha, hget⟩ := Option.bind_eq_some_iff.1 hname
  obtain ⟨t, ht, -⟩ := Option.bind_eq_some_iff.1 ha
  obtain ⟨-, cut', l, -, -, hcut', hliteral, -⟩ := target?_eq_some_iff.1 ht
  obtain rfl : cut = cut' := Option.some.inj (hcut.symm.trans hcut')
  have htoken : name = cut.token := by
    rwa [← h.relabelled_token hcut, relabelled_inj] at heq
  rw [← htoken, (hlabels a name hget).literal_eq_none] at hliteral
  contradiction

/-- An instruction is written differently exactly when it gets a label. -/
theorem isChanged_eq {i : Instruction} (h : i.Placed) {labels : LabelTable}
    (hlabels : labels.Valid) (isa : Isa) :
    i.isChanged isa labels = (i.label? isa labels).isSome := by
  rw [isChanged, write_eq_ok h]
  cases hname : i.label? isa labels with
  | none => simp [written_of_label?_eq_none hname]
  | some name =>
      obtain ⟨-, cut, -, -, hcut⟩ := exists_cut_of_label? hname
      simp [written_of_label? hname hcut, relabelled_ne_toText h hlabels hname hcut]

end Instruction

/-! ## Events -/

/-- Whether an event tells of a target that is the address of no instruction. -/
def Event.isStray : Event → Bool
  | .strayTarget .. => true
  | _ => false

namespace Labelling

variable {isa : Isa} {config : Config} {text : Text} {p : Labelling}

/-- The event of a wrong number of instructions tells of no target. -/
theorem countP_isStray_countWarning (l : Listing) :
    (countWarning l).countP Event.isStray = 0 := by
  unfold countWarning
  split
  · split <;> rfl
  · rfl

/-- There is one event for each target without a label. -/
theorem countP_isStray_events (h : ofText isa config text = .ok p) :
    p.events.countP Event.isStray =
      (LabelTable.strayTargets isa p.listing.instructions).length := by
  obtain ⟨-, l, -, rfl⟩ := ofText_eq_ok_iff.1 h
  have hstray : (strayEvents isa l).countP Event.isStray =
      (LabelTable.strayTargets isa l.instructions).length := by
    rw [strayEvents, List.countP_map]
    exact List.countP_eq_length.2 fun _ _ => rfl
  simp only [ofListing, List.countP_append, List.countP_cons, countP_isStray_countWarning, hstray]
  simp [Event.isStray, readEvent]

/-! ## The report -/

/-- A report agrees with the text, the labels and the events of a labelling. -/
structure Agrees (isa : Isa) (text : Text) (p : Labelling) (r : Report) : Prop where
  lines_eq : r.instructions + r.headerLines + r.trailerLines = (Text.lines text).length
  /-- Each instruction is written, and those are counted whose lines change. -/
  written : ∀ i ∈ p.listing.instructions, ∃ line, i.write isa p.labels = .ok line
  labelled_eq : r.labelled = p.listing.instructions.countP (Instruction.isChanged isa p.labels)
  /-- The kinds with an entry are those of the targets. -/
  target_entry : ∀ k, (∃ n, (k, n) ∈ r.targets) ↔
    ∃ i ∈ p.listing.instructions, ∃ t, i.target? isa = some t ∧ t.kind = k
  target_count : ∀ k n, (k, n) ∈ r.targets →
    n = p.listing.instructions.countP fun i => decide ((i.target? isa).map Target.kind = some k)
  targets_nodup : (r.targets.map (·.1)).Nodup
  /-- Each target has got a label or is told. -/
  targets_sum : (r.targets.map (·.2)).sum = r.labelled + p.events.countP Event.isStray
  labels_eq : r.labels.map (fun e => (e.addr, e.name)) = p.labels.entries
  labels_ascending : (r.labels.map LabelEntry.addr).Pairwise (· < ·)
  length_labels_le : r.labels.length ≤ r.labelled

/-- How many instructions have a target that gets a label. -/
theorem countP_isLabelled (h : ofText isa config text = .ok p) :
    p.listing.instructions.countP (Report.isLabelled isa p.labels) =
      p.listing.instructions.countP
        fun i => (LabelTable.alignedTarget? isa p.listing.instructions i).isSome := by
  apply List.countP_congr
  intro i hi
  rw [labels_eq_build h, Report.isLabelled_build hi]

/-- The report on a labelling agrees with its text, its labels and its events: it
counts the lines of the text, the instructions whose lines change and the targets
of each kind, all targets have got a label or are told, and the labels are those of
the table. -/
theorem report_agrees (h : ofText isa config text = .ok p) :
    Agrees isa text p (Report.ofLabelling isa p) := by
  have hplaced : ∀ i ∈ p.listing.instructions, i.Placed := (listing_wellFormed h).placed
  refine ⟨Listing.length_segments (listing_ofText h), ?_, ?_, ?_, ?_, Report.nodup_tally _, ?_, ?_,
    ?_, ?_⟩
  · intro i hi
    exact ⟨_, Instruction.write_eq_ok (hplaced i hi) isa p.labels⟩
  · apply List.countP_congr
    intro i hi
    rw [Report.isLabelled_eq, Instruction.isChanged_eq (hplaced i hi) (labels_valid h)]
  · intro k
    simp only [Report.ofLabelling, Report.mem_tally_iff, exists_eq_left, List.mem_filterMap,
      Option.map_eq_some_iff]
  · intro k n hmem
    rw [(Report.mem_tally_iff.1 hmem).1, List.count, List.countP_filterMap]
    apply List.countP_congr
    intro i _
    cases i.target? isa <;> simp
  · calc ((Report.ofLabelling isa p).targets.map (·.2)).sum
        = p.listing.instructions.countP (fun i => (i.target? isa).isSome) := by
          simp [Report.ofLabelling, Report.sum_tally, List.length_filterMap_eq_countP]
      _ = (Report.ofLabelling isa p).labelled + p.events.countP Event.isStray := by
          rw [LabelTable.countP_target?, countP_isStray_events h, Report.ofLabelling,
            countP_isLabelled h]
  · rw [Report.ofLabelling, LabelEntry.ofTable, List.map_map]
    exact List.map_id _
  · have haddresses : (Report.ofLabelling isa p).labels.map LabelEntry.addr = p.labels.keys := by
      rw [Report.ofLabelling, LabelEntry.ofTable, List.map_map]
      rfl
    rw [haddresses]
    exact p.labels.pairwise_keys
  · have hle := LabelTable.size_build_le isa p.listing.instructions config.labelPrefix
    rw [← labels_eq_build h, ← countP_isLabelled h] at hle
    simpa [Report.ofLabelling, LabelEntry.ofTable, SortedMap.size] using hle

theorem report_agrees_sample :
    ∃ p, ofText .rv32 .standard sampleText = .ok p ∧
      Agrees .rv32 sampleText p (Report.ofLabelling .rv32 p) ∧
      (Report.ofLabelling .rv32 p).targets = [(.jump, 1), (.branch, 1), (.call, 1)] ∧
      (Report.ofLabelling .rv32 p).labelled = 2 ∧ p.events.countP Event.isStray = 1 := by
  obtain ⟨p, hp⟩ := exists_ofText_sampleText
  refine ⟨p, hp, report_agrees hp, ?_⟩
  obtain rfl := Except.ok.inj hp
  decide +kernel

end Labelling

end BranchLabels
