import BranchLabels.Proofs.ControlFlow

/-!
# A second pass labels nothing

A labelled text that is labelled again gets no more labels: where a label was put
in, nothing is left that could be read as a target, and where a target was left, no
instruction stands there.  The second pass adds a banner and moves the
declarations after the instructions, but keeps every line and the order of the
instructions.

Main results:

- Theorem `LabelTable.build_eq_empty_of_restores`: instructions that were written
  and read again have no target among them.
- Theorem `Listing.labelledLines_empty`: the lines of a listing without labels.
- Theorem `Labelling.second_pass_labels_nothing`: what a second pass does.
-/

namespace BranchLabels

open Text

/-! ## Nothing is left to label -/

/-- Each instruction that is read again was written for some instruction. -/
theorem Instruction.exists_restores_of_mem {isa : Isa} {labels : LabelTable}
    {is js : List Instruction} (h : List.Forall₂ (Restores isa labels) is js)
    {j : Instruction} (hj : j ∈ js) : ∃ i ∈ is, i.Restores isa labels j := by
  induction h with
  | nil => contradiction
  | cons hij _ ih =>
      rcases List.mem_cons.1 hj with rfl | hj
      · exact ⟨_, List.mem_cons_self, hij⟩
      · obtain ⟨i, hi, hrestores⟩ := ih hj
        exact ⟨i, List.mem_cons_of_mem _ hi, hrestores⟩

/-- Instructions that were written with their labels and read again have no target
among them. -/
theorem LabelTable.build_eq_empty_of_restores {isa : Isa} {is js : List Instruction}
    {stem : Text} (hvalid : (build isa is stem).Valid)
    (h : List.Forall₂ (Instruction.Restores isa (build isa is stem)) is js) (stem' : Text) :
    build isa js stem' = SortedMap.empty := by
  apply SortedMap.ext_get?
  intro a
  rw [SortedMap.get?_empty, Option.eq_none_iff_forall_ne_some]
  intro name hget
  obtain ⟨⟨j, hj, t, htarget, haddress⟩, ⟨k, hk, hka⟩, -⟩ := get?_build_eq_some_iff.1 hget
  obtain ⟨i, hi, hij⟩ := Instruction.exists_restores_of_mem h hj
  obtain ⟨k₀, hk₀, hk₀k⟩ := Instruction.exists_restores_of_mem h hk
  have hhas : HasAddress is a := ⟨k₀, hk₀, hk₀k.address_eq.symm.trans hka⟩
  cases hname : i.label? isa (build isa is stem) with
  | some name₀ =>
      rw [hij.target?_eq_none hvalid hname] at htarget
      contradiction
  | none =>
      have hgoes : i.GoesTo isa is a :=
        ⟨⟨t, (hij.target?_eq hname).symm.trans htarget, haddress⟩, hhas⟩
      rw [(Instruction.label?_build_eq_some_iff hi).2 ⟨a, hgoes, rfl⟩] at hname
      contradiction

/-! ## Listings without labels -/

/-- Without labels a line is written as it is. -/
@[simp] theorem Instruction.write_empty (isa : Isa) (i : Instruction) :
    i.write isa SortedMap.empty = .ok ⟨i.toText, false⟩ := by
  have hnone : i.label? isa SortedMap.empty = none := Option.bind_fun_none _
  simp only [write, hnone]

/-- Without labels nothing is declared. -/
@[simp] theorem declarationAt_empty (config : Config) (earlier : List Address) (a : Address) :
    declarationAt config SortedMap.empty earlier a = [] := rfl

/-- Without labels the instructions are written as they are. -/
theorem codeLines_empty (isa : Isa) (config : Config) (earlier : List Address)
    (is : List Instruction) :
    codeLines isa SortedMap.empty config earlier is = .ok (is.map Instruction.toText) := by
  induction is generalizing earlier with
  | nil => rfl
  | cons i is ih => simp [codeLines, ih]

namespace Listing

/-- Without labels only the banner is added. -/
theorem labelledLines_empty (isa : Isa) (config : Config) (l : Listing) :
    l.labelledLines isa SortedMap.empty config =
      .ok (l.header ++ bannerLines 0 ++ l.instructions.map Instruction.toText ++ l.trailer) := by
  rw [labelledLines, codeLines_empty]
  rfl

/-- A listing without labels is written with all lines of its text and the
banner. -/
theorem perm_labelledLines_empty {text : Text} {l : Listing} (h : ofText text = .ok l) :
    (l.header ++ bannerLines 0 ++ l.instructions.map Instruction.toText ++ l.trailer).Perm
      (Text.lines text ++ bannerLines 0) := by
  have hbanner : (l.header ++ bannerLines 0 ++ l.instructions.map Instruction.toText ++
      l.trailer).Perm (bannerLines 0 ++
        (l.header ++ l.instructions.map Instruction.toText ++ l.trailer)) := by
    simp only [List.append_assoc]
    exact List.perm_append_comm_assoc _ _ _
  exact hbanner.trans (List.perm_append_comm.trans ((perm_lines h).append_right _))

/-- A listing without labels is written with its instructions in their order. -/
theorem filter_isCode_labelledLines_empty {text : Text} {l : Listing} (h : ofText text = .ok l) :
    (l.header ++ bannerLines 0 ++ l.instructions.map Instruction.toText ++ l.trailer).filter
      isCode = (Text.lines text).filter isCode := by
  have hwell : l.WellFormed := wellFormed_of_ofText h
  have hcode : ∀ t ∈ l.instructions.map Instruction.toText, isCode t = true := by
    intro t ht
    obtain ⟨i, hi, rfl⟩ := List.mem_map.1 ht
    exact isCode_of_wellRead (hwell.instructions_read i hi)
  rw [List.filter_append, List.filter_append, List.filter_append,
    filter_isCode_eq_nil hwell.header_prose,
    filter_isCode_eq_nil fun t ht => wellRead_of_mem_bannerLines ht,
    filter_isCode_eq_nil hwell.trailer_prose, List.filter_eq_self.2 hcode,
    filter_isCode_lines h, List.nil_append, List.nil_append, List.append_nil]

end Listing

/-! ## The second pass -/

namespace Labelling

variable {isa : Isa} {text : Text}

/-- A second pass finds nothing left to label, whatever its configuration: it
puts no label into any line, and it writes the lines of the first pass and a
banner, with the instructions in their order. -/
theorem second_pass_labels_nothing {config config' : Config} {p : Labelling}
    (h : ofText isa config text = .ok p) (hvalid : config'.validate = .ok ()) :
    ∃ p' written, ofText isa config' p.text = .ok p' ∧ p'.labels = SortedMap.empty ∧
      (∀ i ∈ p'.listing.instructions, i.write isa p'.labels = .ok ⟨i.toText, false⟩) ∧
      p'.listing.labelledLines isa p'.labels config' = .ok written ∧
      p'.text = unlines written ∧
      written.Perm (Text.lines p.text ++ [[], banner, "; labels=0".toList, []]) ∧
      written.filter Listing.isCode = (Text.lines p.text).filter Listing.isCode := by
  obtain ⟨l, hl, -, hinstructions, -⟩ := exists_reread h
  have hstem : Config.ValidPrefix config'.labelPrefix := Config.validate_eq_ok_iff.1 hvalid
  have hp' : ofText isa config' p.text = .ok (ofListing isa config' l) :=
    ofText_eq_ok_iff.2 ⟨hstem, l, hl, rfl⟩
  have hempty : (ofListing isa config' l).labels = SortedMap.empty := by
    have hlabels := labels_valid h
    rw [labels_eq_build h] at hinstructions hlabels
    exact LabelTable.build_eq_empty_of_restores hlabels hinstructions config'.labelPrefix
  have hwritten := l.labelledLines_empty isa config'
  rw [← hempty] at hwritten
  refine ⟨_, _, hp', hempty, ?_, hwritten, text_eq_unlines hp' hwritten,
    Listing.perm_labelledLines_empty hl, Listing.filter_isCode_labelledLines_empty hl⟩
  intro i _
  rw [hempty, Instruction.write_empty]

theorem second_pass_labels_nothing_sample :
    ∃ p p' written, ofText .rv32 .standard sampleText = .ok p ∧
      ofText .rv32 ⟨"L".toList, false⟩ p.text = .ok p' ∧
      p'.labels = SortedMap.empty ∧ p'.text = unlines written ∧
      written.Perm (Text.lines p.text ++ [[], banner, "; labels=0".toList, []]) ∧
      p.labels.size = 2 := by
  obtain ⟨p, hp⟩ := exists_ofText_sampleText
  have hvalid : Config.validate ⟨"L".toList, false⟩ = .ok () := by decide
  obtain ⟨p', written, hp', hlabels, -, -, htext, hperm, -⟩ :=
    second_pass_labels_nothing hp hvalid
  refine ⟨p, p', written, hp, hp', hlabels, htext, hperm, ?_⟩
  obtain rfl := Except.ok.inj hp
  decide +kernel

end Labelling

end BranchLabels
