import BranchLabels.Proofs.Rereading
import BranchLabels.Report

/-!
# Labels depend on the instructions alone

Two listings with the same instruction lines get the same labels, whatever other
lines stand around and between these, and two instruction sets label alike when they
agree on which mnemonics transfer control.  Only the numbers of the lines and the
kinds of the transfers tell such runs apart, and neither has a part in which address
gets a label, where the label is declared or which operand it replaces.

Main results:

- Theorem `Instruction.targetAddress?_eq`: the address that an instruction goes to
  does not depend on the kind of the transfer.
- Theorem `Listing.alike_of_filter_isCode`: the same lines are read as the same
  instructions up to their numbers.
- Theorem `LabelTable.build_alike`: alike instructions get the same labels.
- Theorem `written_codePlan_alike`: alike instructions are written in the same way.
- Theorem `Labelling.labels_depend_on_code_alone`: two runs with the same instruction
  lines agree on the labels, the lines of the instructions and the report.
-/

namespace BranchLabels

open Text

namespace Instruction

/-- The address that an instruction goes to depends on whether it transfers control,
and not on the kind of the transfer. -/
theorem targetAddress?_eq (isa : Isa) (i : Instruction) :
    i.targetAddress? isa =
      if isa.isControlFlow i.mnemonic then (i.literal?.bind i.place?).bind Address.ofInt?
      else none := by
  unfold targetAddress? target? Isa.isControlFlow
  cases isa.flowKind? i.mnemonic with
  | none => simp
  | some kind =>
      cases i.literal? with
      | none => simp
      | some l => cases hplace : i.place? l <;> simp [hplace]

/-! ## Alike instructions -/

/-- Two instructions with their instruction sets are alike: they are the same up to
the numbers of their lines, and both or none of them transfer control. -/
structure Alike (isa isa' : Isa) (i j : Instruction) : Prop where
  eq_renumbered : j = { i with line := j.line }
  isControlFlow_eq : isa'.isControlFlow i.mnemonic = isa.isControlFlow i.mnemonic

section Alike

variable {isa isa' : Isa} {i j : Instruction}

theorem Alike.address_eq (h : Alike isa isa' i j) : j.address = i.address := by
  rw [h.eq_renumbered]

/-- Alike instructions go to the same address. -/
theorem Alike.targetAddress?_eq (h : Alike isa isa' i j) :
    j.targetAddress? isa' = i.targetAddress? isa := by
  rw [Instruction.targetAddress?_eq, Instruction.targetAddress?_eq, h.eq_renumbered]
  rw [show ({ i with line := j.line } : Instruction).mnemonic = i.mnemonic from rfl,
    h.isControlFlow_eq]
  rfl

/-- Alike instructions get the same label. -/
theorem Alike.label?_eq (h : Alike isa isa' i j) (labels : LabelTable) :
    j.label? isa' labels = i.label? isa labels := by
  rw [label?, label?, h.targetAddress?_eq]

/-- Alike instructions are written in the same way. -/
theorem Alike.written_eq (h : Alike isa isa' i j) (labels : LabelTable) :
    j.written isa' labels = i.written isa labels := by
  unfold written
  rw [h.label?_eq, h.eq_renumbered]
  rfl

/-- Alike instructions count alike in a report. -/
theorem Alike.isLabelled_eq (h : Alike isa isa' i j) (labels : LabelTable) :
    Report.isLabelled isa' labels j = Report.isLabelled isa labels i := by
  rw [Report.isLabelled, Report.isLabelled, h.targetAddress?_eq]

end Alike

/-- Instructions that were read from the same line are the same up to its number. -/
theorem eq_renumbered_of_toText_eq {i j : Instruction} (hi : (Line.code i).WellRead)
    (hj : (Line.code j).WellRead) (h : j.toText = i.toText) :
    j = { i with line := j.line } := by
  have hread : read j.line i.toText = .ok (some j) := h ▸ hj.1
  obtain ⟨s, a, hs, ha, hi'⟩ := read_eq_ok_some_iff.1 hi.1
  obtain ⟨s', a', hs', ha', hj'⟩ := read_eq_ok_some_iff.1 hread
  obtain rfl : s = s' := Option.some.inj (hs.symm.trans hs')
  obtain rfl : a = a' := Option.some.inj (ha.symm.trans ha')
  rw [hi', hj']
  rfl

end Instruction

/-! ## Lists of alike instructions -/

section Lists

variable {isa isa' : Isa} {is js : List Instruction}

/-- What agrees on alike instructions agrees on lists of them. -/
theorem map_eq_of_alike {β : Type} {f g : Instruction → β}
    (h : List.Forall₂ (Instruction.Alike isa isa') is js)
    (hfg : ∀ i j, Instruction.Alike isa isa' i j → g j = f i) : js.map g = is.map f := by
  induction h with
  | nil => rfl
  | cons hij _ ih => rw [List.map_cons, List.map_cons, hfg _ _ hij, ih]

/-- Alike instructions have the same addresses. -/
theorem hasAddress_iff_of_alike (h : List.Forall₂ (Instruction.Alike isa isa') is js)
    (a : Address) : LabelTable.HasAddress js a ↔ LabelTable.HasAddress is a := by
  have haddresses : js.map Instruction.address = is.map Instruction.address :=
    map_eq_of_alike h fun _ _ hij => hij.address_eq
  simp only [LabelTable.HasAddress, ← List.mem_map, haddresses]

/-- Alike instructions get the same labels. -/
theorem LabelTable.build_alike (h : List.Forall₂ (Instruction.Alike isa isa') is js)
    (stem : Text) : build isa' js stem = build isa is stem := by
  have htargets : js.map (alignedTarget? isa' js) = is.map (alignedTarget? isa is) := by
    apply map_eq_of_alike h
    intro i j hij
    simp only [alignedTarget?, hij.targetAddress?_eq, hasAddress_iff_of_alike h]
  have hlabelled : js.filterMap (alignedTarget? isa' js) =
      is.filterMap (alignedTarget? isa is) := by
    rw [← Function.id_comp (alignedTarget? isa' js), ← List.filterMap_map, htargets,
      List.filterMap_map, Function.id_comp]
  rw [build, build, hlabelled]

/-- Alike instructions are written in the same way. -/
theorem written_codePlan_alike (h : List.Forall₂ (Instruction.Alike isa isa') is js)
    (config : Config) (labels : LabelTable) (earlier : List Address) :
    (codePlan config labels earlier js).map (Line.written isa' labels) =
      (codePlan config labels earlier is).map (Line.written isa labels) := by
  induction h generalizing earlier with
  | nil => rfl
  | cons hij _ ih =>
      simp only [codePlan, List.map_append, map_written_prose, List.map_cons, Line.written,
        hij.address_eq, hij.written_eq, ih]

/-- As many of alike instructions get a label. -/
theorem countP_isLabelled_alike (h : List.Forall₂ (Instruction.Alike isa isa') is js)
    (labels : LabelTable) :
    js.countP (Report.isLabelled isa' labels) = is.countP (Report.isLabelled isa labels) := by
  have hmap : js.map (Report.isLabelled isa' labels) = is.map (Report.isLabelled isa labels) :=
    map_eq_of_alike h fun _ _ hij => hij.isLabelled_eq labels
  rw [← Function.id_comp (Report.isLabelled isa' labels), ← List.countP_map, hmap,
    List.countP_map, Function.id_comp]

end Lists

/-- The same instruction lines are read as alike instructions. -/
theorem Listing.alike_of_filter_isCode {isa isa' : Isa} {text text' : Text} {l l' : Listing}
    (hl : ofText text = .ok l) (hl' : ofText text' = .ok l')
    (hcode : (Text.lines text').filter isCode = (Text.lines text).filter isCode)
    (hflow : ∀ i ∈ l.instructions, isa'.isControlFlow i.mnemonic = isa.isControlFlow i.mnemonic) :
    List.Forall₂ (Instruction.Alike isa isa') l.instructions l'.instructions := by
  have hread : ∀ i ∈ l.instructions, (Line.code i).WellRead :=
    (wellFormed_of_ofText hl).instructions_read
  have hread' : ∀ j ∈ l'.instructions, (Line.code j).WellRead :=
    (wellFormed_of_ofText hl').instructions_read
  rw [filter_isCode_lines hl, filter_isCode_lines hl'] at hcode
  generalize l.instructions = is at hread hflow hcode
  generalize l'.instructions = js at hread' hcode
  induction is generalizing js with
  | nil =>
      rw [List.map_nil, List.map_eq_nil_iff] at hcode
      rw [hcode]
      exact .nil
  | cons i is ih =>
      obtain ⟨j, js, rfl, htext, hrest⟩ := List.map_eq_cons_iff.1 hcode
      have hij : Instruction.Alike isa isa' i j :=
        ⟨Instruction.eq_renumbered_of_toText_eq (hread i List.mem_cons_self)
          (hread' j List.mem_cons_self) htext, hflow i List.mem_cons_self⟩
      exact .cons hij (ih (fun k hk => hread k (List.mem_cons_of_mem _ hk))
        (fun k hk => hflow k (List.mem_cons_of_mem _ hk)) js
        (fun k hk => hread' k (List.mem_cons_of_mem _ hk)) hrest)

namespace Labelling

/-- The lines of the instructions of a labelled text: those between the banner and the
trailer. -/
structure CodeSection (isa : Isa) (config : Config) (p : Labelling) (code : List Text) :
    Prop where
  text_eq : p.text = unlines (p.listing.header ++ bannerLines p.labels.size ++ code ++
    p.listing.trailer)
  codeLines_eq : codeLines isa p.labels config [] p.listing.instructions = .ok code

/-- The lines of the instructions are those of their plan. -/
theorem codeSection_ofListing {l : Listing} (h : l.WellFormed) (isa : Isa) (config : Config) :
    CodeSection isa config (ofListing isa config l)
      ((codePlan config (ofListing isa config l).labels [] l.instructions).map
        (Line.written isa (ofListing isa config l).labels)) where
  text_eq := by
    simp only [ofListing, Listing.plan, List.map_append, map_written_prose]
  codeLines_eq := codeLines_eq_ok isa _ config [] h.placed

/-- Two texts with the same instruction lines and two instruction sets that agree on
which of their mnemonics transfer control are labelled alike: the labels and the lines
of the instructions are the same, and so are their number, the number of operands
that a label replaced and the labels of the report. -/
theorem labels_depend_on_code_alone {isa isa' : Isa} {config : Config} {text text' : Text}
    {l l' : Listing} (hl : Listing.ofText text = .ok l) (hl' : Listing.ofText text' = .ok l')
    (hcode : (Text.lines text').filter Listing.isCode = (Text.lines text).filter Listing.isCode)
    (hflow : ∀ i ∈ l.instructions, isa'.isControlFlow i.mnemonic = isa.isControlFlow i.mnemonic)
    (hvalid : config.validate = .ok ()) :
    ∃ p p' code, ofText isa config text = .ok p ∧ ofText isa' config text' = .ok p' ∧
      p'.labels = p.labels ∧ CodeSection isa config p code ∧ CodeSection isa' config p' code ∧
      (Report.ofLabelling isa' p').instructions = (Report.ofLabelling isa p).instructions ∧
      (Report.ofLabelling isa' p').labelled = (Report.ofLabelling isa p).labelled ∧
      (Report.ofLabelling isa' p').labels = (Report.ofLabelling isa p).labels := by
  have halike := Listing.alike_of_filter_isCode hl hl' hcode hflow
  have hstem : Config.ValidPrefix config.labelPrefix := Config.validate_eq_ok_iff.1 hvalid
  have hlabels : (ofListing isa' config l').labels = (ofListing isa config l).labels :=
    LabelTable.build_alike halike config.labelPrefix
  have hsection' := codeSection_ofListing (Listing.wellFormed_of_ofText hl') isa' config
  rw [hlabels, written_codePlan_alike halike] at hsection'
  refine ⟨ofListing isa config l, ofListing isa' config l', _,
    ofText_eq_ok_iff.2 ⟨hstem, l, hl, rfl⟩, ofText_eq_ok_iff.2 ⟨hstem, l', hl', rfl⟩, hlabels,
    codeSection_ofListing (Listing.wellFormed_of_ofText hl) isa config, hsection', ?_, ?_, ?_⟩
  · exact halike.length_eq.symm
  · simp only [Report.ofLabelling, hlabels]
    exact countP_isLabelled_alike halike _
  · simp only [Report.ofLabelling, hlabels]

/-- Two instructions with other lines around them. -/
def annotatedText : Text :=
  "; fw\n0x0: 6f j 0x4\nnote\n0x4: 63 beqz a0, -4\n".toList

/-- The same instructions with other lines after them. -/
def describedCode : Text :=
  "0x0: 6f j 0x4\n0x4: 63 beqz a0, -4\n; instructions=9".toList

/-- An instruction set that takes the jump for a return and the branch for a call. -/
def otherKinds : Isa :=
  .ofTable [("j".toList, .ret), ("beqz".toList, .call)]

theorem labels_depend_on_code_alone_sample :
    ∃ p p' code, ofText .rv32 .standard annotatedText = .ok p ∧
      ofText otherKinds .standard describedCode = .ok p' ∧ p'.labels = p.labels ∧
      CodeSection .rv32 .standard p code ∧ CodeSection otherKinds .standard p' code ∧
      p.labels.size = 2 := by
  obtain ⟨l, hl⟩ : ∃ l, Listing.ofText annotatedText = .ok l := ⟨_, rfl⟩
  obtain ⟨l', hl'⟩ : ∃ l, Listing.ofText describedCode = .ok l := ⟨_, rfl⟩
  have hcode : (Text.lines describedCode).filter Listing.isCode =
      (Text.lines annotatedText).filter Listing.isCode := by decide +kernel
  have hflow : ∀ i ∈ l.instructions,
      otherKinds.isControlFlow i.mnemonic = Isa.rv32.isControlFlow i.mnemonic := by
    obtain rfl := Except.ok.inj hl
    decide +kernel
  have hvalid : Config.validate .standard = .ok () := by decide
  obtain ⟨p, p', code, hp, hp', hlabels, hsection, hsection', -⟩ :=
    labels_depend_on_code_alone hl hl' hcode hflow hvalid
  refine ⟨p, p', code, hp, hp', hlabels, hsection, hsection', ?_⟩
  obtain rfl := Except.ok.inj hp
  decide +kernel

end Labelling

end BranchLabels
