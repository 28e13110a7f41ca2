import BranchLabels.Proofs.Rereading

/-!
# Control flow is preserved

Each instruction of a labelled listing goes where it went before.  When its target
is the address of an instruction, its last operand is the label of that address,
and the declaration of the label stands directly before the first instruction
there.  When not, its operands and its target are as they were.

Main results:

- Theorem `Instruction.label?_build_eq_some_iff`: which instructions of a listing
  get a label, and which one.
- Theorem `exists_codeLines_eq_of_first`: the declaration of a label stands directly
  before the first instruction of its address.
- Theorem `Labelling.control_flow_preserved`: each instruction either gets the
  label of its target or is left alone.
-/

namespace BranchLabels

open Text

/-! ## Which instructions get a label -/

/-- An instruction goes to an address at which an instruction of a list stands. -/
def Instruction.GoesTo (isa : Isa) (is : List Instruction) (i : Instruction) (a : Address) :
    Prop :=
  (∃ t, i.target? isa = some t ∧ t.address = a.toNat) ∧ LabelTable.HasAddress is a

/-- An instruction of a list gets a label exactly when it goes to an instruction of
the list, and then the label of the address it goes to. -/
theorem Instruction.label?_build_eq_some_iff {isa : Isa} {is : List Instruction}
    {stem name : Text} {i : Instruction} (hi : i ∈ is) :
    i.label? isa (LabelTable.build isa is stem) = some name ↔
      ∃ a, i.GoesTo isa is a ∧ name = labelName stem a := by
  rw [label?, Option.bind_eq_some_iff]
  constructor
  · rintro ⟨a, ha, hget⟩
    obtain ⟨-, hhas, hname⟩ := LabelTable.get?_build_eq_some_iff.1 hget
    exact ⟨a, ⟨targetAddress?_eq_some_iff.1 ha, hhas⟩, hname⟩
  · rintro ⟨a, ⟨htarget, hhas⟩, hname⟩
    exact ⟨a, targetAddress?_eq_some_iff.2 htarget,
      LabelTable.get?_build_eq_some_iff.2 ⟨⟨i, hi, htarget⟩, hhas, hname⟩⟩

/-! ## Where a label is declared -/

/-- An address of a list has a first instruction. -/
theorem exists_first_of_hasAddress {is : List Instruction} {a : Address}
    (h : LabelTable.HasAddress is a) :
    ∃ ahead first behind, is = ahead ++ first :: behind ∧ first.address = a ∧
      ∀ i ∈ ahead, i.address ≠ a := by
  induction is with
  | nil =>
      obtain ⟨i, hi, -⟩ := h
      contradiction
  | cons i is ih =>
      by_cases hi : i.address = a
      · exact ⟨[], i, is, rfl, hi, by simp⟩
      · have hrest : LabelTable.HasAddress is a := by
          obtain ⟨j, hj, hja⟩ := h
          rcases List.mem_cons.1 hj with rfl | hj
          · exact absurd hja hi
          · exact ⟨j, hj, hja⟩
        obtain ⟨ahead, first, behind, rfl, hfirst, hahead⟩ := ih hrest
        refine ⟨i :: ahead, first, behind, rfl, hfirst, ?_⟩
        intro j hj
        rcases List.mem_cons.1 hj with rfl | hj
        · exact hi
        · exact hahead j hj

/-- The plan of the instructions has the declaration of a label directly before
the first instruction of its address. -/
theorem codePlan_append_of_first (config : Config) {labels : LabelTable}
    {ahead : List Instruction} {first : Instruction} {name : Text} (behind : List Instruction)
    (hahead : ∀ i ∈ ahead, i.address ≠ first.address)
    (hname : labels.get? first.address = some name) :
    codePlan config labels [] (ahead ++ first :: behind) =
      codePlan config labels [] ahead ++ ((declaration config name).map .prose ++
        .code first :: codePlan config labels
          (first.address :: (ahead.map Instruction.address).reverse) behind) := by
  have hnot : first.address ∉ (ahead.map Instruction.address).reverse := by
    simp only [List.mem_reverse, List.mem_map, not_exists, not_and]
    exact hahead
  have hdeclaration : declarationAt config labels [] first.address = declaration config name := by
    simp [declarationAt, hname]
  rw [codePlan_append, List.append_nil, codePlan, declarationAt_of_not_mem hnot, hdeclaration]

/-- The lines that declare a label: its name with a colon, after an empty line
when labels are set off. -/
theorem declaration_eq_append (config : Config) (name : Text) :
    declaration config name =
      (if config.labelSpacing then [[]] else []) ++ [name ++ [':']] := by
  unfold declaration
  split <;> rfl

/-- The declaration of a label is written directly before the first instruction of
its address. -/
theorem exists_codeLines_eq_of_first (isa : Isa) (config : Config) {labels : LabelTable}
    {ahead behind : List Instruction} {first : Instruction} {name : Text}
    (hplaced : ∀ i ∈ ahead ++ first :: behind, i.Placed)
    (hahead : ∀ i ∈ ahead, i.address ≠ first.address)
    (hname : labels.get? first.address = some name) :
    ∃ above line below, codeLines isa labels config [] ahead = .ok above ∧
      first.write isa labels = .ok line ∧
      codeLines isa labels config [] (ahead ++ first :: behind) =
        .ok (above ++ (if config.labelSpacing then [[]] else []) ++
          (name ++ [':']) :: line.text :: below) := by
  have hplacedAhead : ∀ i ∈ ahead, i.Placed :=
    fun i hi => hplaced i (List.mem_append_left _ hi)
  have hplacedFirst : first.Placed :=
    hplaced first (List.mem_append_right _ List.mem_cons_self)
  refine ⟨_, _, (codePlan config labels
      (first.address :: (ahead.map Instruction.address).reverse) behind).map
        (Line.written isa labels), codeLines_eq_ok isa labels config [] hplacedAhead,
    Instruction.write_eq_ok hplacedFirst isa labels, ?_⟩
  rw [codeLines_eq_ok isa labels config [] hplaced,
    codePlan_append_of_first config behind hahead hname, declaration_eq_append]
  simp only [List.map_append, map_written_prose, List.map_cons, Line.written,
    List.append_assoc, List.cons_append, List.nil_append]

namespace Labelling

variable {isa : Isa} {config : Config} {text : Text} {p : Labelling}

/-- Among the written lines of the instructions, the line that declares the label
of an address stands directly before the line of the first instruction there. -/
def DeclaredAtFirst (isa : Isa) (config : Config) (p : Labelling) (a : Address) : Prop :=
  ∃ code ahead first behind above line below,
    p.text = unlines (p.listing.header ++ bannerLines p.labels.size ++ code ++
      p.listing.trailer) ∧
    codeLines isa p.labels config [] p.listing.instructions = .ok code ∧
    p.listing.instructions = ahead ++ first :: behind ∧ first.address = a ∧
    (∀ i ∈ ahead, i.address ≠ a) ∧
    codeLines isa p.labels config [] ahead = .ok above ∧
    first.write isa p.labels = .ok line ∧
    code = above ++ (if config.labelSpacing then [[]] else []) ++
      (labelName config.labelPrefix a ++ [':']) :: line.text :: below

/-- An instruction that goes to an instruction is read again with the label of its
target as its last operand and with the same text before, and the label is declared
where the instruction went. -/
structure Redirected (isa : Isa) (config : Config) (p : Labelling) (i j : Instruction)
    (a : Address) : Prop where
  goesTo : i.GoesTo isa p.listing.instructions a
  lastOperand : ∃ cut, lastOperand? i.operands = some cut ∧
    lastOperand? j.operands = some ⟨cut.before, labelName config.labelPrefix a, []⟩
  declared : DeclaredAtFirst isa config p a

/-- An instruction that goes to no instruction is read again with its operands and
its target. -/
structure Kept (isa : Isa) (p : Labelling) (i j : Instruction) : Prop where
  not_goesTo : ∀ a, ¬ i.GoesTo isa p.listing.instructions a
  operands_eq : j.operands = i.operands
  target_eq : j.target? isa = i.target? isa

/-- Each address that has a label is declared at its first instruction. -/
theorem declaredAtFirst_of_get? (h : ofText isa config text = .ok p) {a : Address}
    (hget : p.labels.get? a = some (labelName config.labelPrefix a))
    (hhas : LabelTable.HasAddress p.listing.instructions a) :
    DeclaredAtFirst isa config p a := by
  have hplaced := (listing_wellFormed h).placed
  obtain ⟨ahead, first, behind, hsplit, rfl, hahead⟩ := exists_first_of_hasAddress hhas
  obtain ⟨above, line, below, habove, hline, hcode⟩ :=
    exists_codeLines_eq_of_first isa config (hsplit ▸ hplaced) hahead hget
  rw [← hsplit] at hcode
  refine ⟨_, ahead, first, behind, above, line, below, ?_, hcode, hsplit, rfl, hahead, habove,
    hline, rfl⟩
  apply text_eq_unlines h
  rw [Listing.labelledLines, hcode]
  rfl

/-- An instruction that gets a label is redirected to it. -/
theorem redirected_of_label? (h : ofText isa config text = .ok p) {i j : Instruction}
    (hi : i ∈ p.listing.instructions) (hij : i.Restores isa p.labels j) {name : Text}
    (hname : i.label? isa p.labels = some name) :
    ∃ a, Redirected isa config p i j a := by
  obtain ⟨-, cut, -, -, hcut⟩ := Instruction.exists_cut_of_label? hname
  have hlast := hij.lastOperand_eq name cut hname hcut
  rw [labels_eq_build h] at hname
  obtain ⟨a, hgoes, rfl⟩ := (Instruction.label?_build_eq_some_iff hi).1 hname
  refine ⟨a, hgoes, ⟨cut, hcut, hlast⟩, declaredAtFirst_of_get? h ?_ hgoes.2⟩
  rw [labels_eq_build h]
  exact LabelTable.get?_build_eq_some_iff.2 ⟨⟨i, hi, hgoes.1⟩, hgoes.2, rfl⟩

/-- An instruction that gets no label is kept. -/
theorem kept_of_label?_eq_none (h : ofText isa config text = .ok p) {i j : Instruction}
    (hi : i ∈ p.listing.instructions) (hij : i.Restores isa p.labels j)
    (hnone : i.label? isa p.labels = none) : Kept isa p i j := by
  refine ⟨?_, hij.operands_eq hnone, hij.target?_eq hnone⟩
  intro a hgoes
  have hsome : i.label? isa p.labels = some (labelName config.labelPrefix a) := by
    rw [labels_eq_build h]
    exact (Instruction.label?_build_eq_some_iff hi).2 ⟨a, hgoes, rfl⟩
  rw [hnone] at hsome
  contradiction

/-- Each instruction of a labelled listing goes where it went before: it is read
again either with the label of the instruction it went to, declared at that
instruction, or with its operands and its target as they were. -/
theorem control_flow_preserved (h : ofText isa config text = .ok p) :
    ∃ l, Listing.ofText p.text = .ok l ∧
      List.Forall₂ (fun i j => Xor (∃ a, Redirected isa config p i j a) (Kept isa p i j))
        p.listing.instructions l.instructions := by
  obtain ⟨l, hl, -, hinstructions, -⟩ := exists_reread h
  refine ⟨l, hl, ?_⟩
  have hboth := (List.forall₂_and_left _ _).2 ⟨fun i hi => hi, hinstructions⟩
  apply hboth.imp
  rintro i j ⟨hi, hij⟩
  cases hname : i.label? isa p.labels with
  | some name =>
      obtain ⟨a, hredirected⟩ := redirected_of_label? h hi hij hname
      exact .inl ⟨⟨a, hredirected⟩, fun hkept => hkept.not_goesTo a hredirected.goesTo⟩
  | none =>
      have hkept := kept_of_label?_eq_none h hi hij hname
      exact .inr ⟨hkept, fun ⟨a, hredirected⟩ => hkept.not_goesTo a hredirected.goesTo⟩

theorem control_flow_preserved_sample :
    ∃ p l, ofText .rv32 .standard sampleText = .ok p ∧ Listing.ofText p.text = .ok l ∧
      List.Forall₂ (fun i j =>
          Xor (∃ a, Redirected .rv32 .standard p i j a) (Kept .rv32 p i j))
        p.listing.instructions l.instructions ∧
      p.listing.instructions.map (·.label? .rv32 p.labels) =
        [some "loc_00000000".toList, some "loc_00000004".toList, none] := by
  obtain ⟨p, hp⟩ := exists_ofText_sampleText
  obtain ⟨l, hl, hinstructions⟩ := control_flow_preserved hp
  refine ⟨p, l, hp, hl, hinstructions, ?_⟩
  obtain rfl := Except.ok.inj hp
  decide +kernel

end Labelling

end BranchLabels
