import BranchLabels.Proofs.ControlFlow

/-!
# Declarations are complete, unique and used

The labelled text has one block of lines for each instruction: its written line,
and before it the declaration of its label when no instruction before it has the
same address.  Since the labels are those of addresses that are both the target and
the address of an instruction, each of them is declared once and used at least
once, and the number of lines follows from the number of labels.

Main results:

- Theorem `Listing.perm_names_build`: the labels of the addresses of a listing, in
  the order in which they are declared, are those of its table.
- Theorem `getElem?_codeBlocks`: the block of lines of each instruction.
- Theorem `Labelling.count_name_eq_one`: each label is declared once.
- Theorem `Labelling.count_lineFeed`: how many lines a labelled text has.
- Theorem `Labelling.declared_once_and_used`: the lines of a labelled text, with
  each label declared once and used.
-/

namespace BranchLabels

open Text

/-! ## The labels that are declared -/

/-- The names of a table in the order of their addresses. -/
def LabelTable.names (labels : LabelTable) : List Text :=
  labels.entries.map (·.2)

/-- Each address is listed once when repeated ones are left out. -/
theorem nodup_eraseDups (as : List Address) : as.eraseDups.Nodup := by
  match as with
  | [] => simp
  | a :: as =>
      rw [List.eraseDups_cons, List.nodup_cons]
      exact ⟨by simp, nodup_eraseDups (as.filter fun b => !b == a)⟩
termination_by as.length
decreasing_by exact Nat.lt_succ_of_le (List.length_filter_le _ _)

/-- The addresses of a listing are those of its instructions. -/
theorem Listing.mem_addresses_iff {l : Listing} {a : Address} :
    a ∈ l.addresses ↔ LabelTable.HasAddress l.instructions a := by
  rw [addresses, List.mem_eraseDups, List.mem_map]
  rfl

namespace LabelTable

/-- The names of a table are those of its addresses. -/
theorem names_build (isa : Isa) (is : List Instruction) (stem : Text) :
    (build isa is stem).names = (build isa is stem).keys.map (labelName stem) := by
  rw [names, entries_build, List.map_map]
  rfl

/-- No name stands for two addresses. -/
theorem nodup_names_build (isa : Isa) (is : List Instruction) (stem : Text) :
    (build isa is stem).names.Nodup := by
  rw [names_build]
  exact (SortedMap.nodup_keys _).map fun _ _ hname => (labelName_inj.1 hname).2

theorem length_names (labels : LabelTable) : labels.names.length = labels.size :=
  List.length_map _

theorem mem_names_of_get? {labels : LabelTable} {a : Address} {name : Text}
    (h : labels.get? a = some name) : name ∈ labels.names :=
  List.mem_map.2 ⟨(a, name), (SortedMap.mem_entries_iff labels a name).2 h, rfl⟩

end LabelTable

/-- The labels of the addresses of a listing, each at its first instruction, are
those of its table. -/
theorem Listing.perm_names_build (l : Listing) (isa : Isa) (stem : Text) :
    (l.addresses.filterMap (LabelTable.build isa l.instructions stem).get?).Perm
      (LabelTable.build isa l.instructions stem).names := by
  apply SortedMap.perm_filterMap_get? _ (nodup_eraseDups _)
  intro a ha
  exact mem_addresses_iff.2 (LabelTable.mem_keys_build_iff.1 ha).2

/-! ## Counting declarations -/

/-- How many lines declare a label. -/
def declarationLength (config : Config) : Nat :=
  if config.labelSpacing then 2 else 1

theorem length_declaration (config : Config) (name : Text) :
    (declaration config name).length = declarationLength config := by
  unfold declaration declarationLength
  split <;> rfl

/-- Declarations have as many lines as there are names, or twice as many. -/
theorem length_flatMap_declaration (config : Config) (names : List Text) :
    (names.flatMap (declaration config)).length = declarationLength config * names.length := by
  induction names with
  | nil => simp
  | cons name names ih =>
      rw [List.flatMap_cons, List.length_append, length_declaration, ih, List.length_cons,
        Nat.mul_add]
      omega

/-- The line of a label stands in its own declaration and in no other. -/
theorem count_declaration (config : Config) (name other : Text) :
    (declaration config other).count (name ++ [':']) = if other = name then 1 else 0 := by
  by_cases hname : other = name
  · unfold declaration
    split <;> simp [hname]
  · unfold declaration
    split <;> simp [hname]

/-- A label is declared as often as it is named. -/
theorem count_flatMap_declaration (config : Config) (name : Text) (names : List Text) :
    (names.flatMap (declaration config)).count (name ++ [':']) = names.count name := by
  induction names with
  | nil => rfl
  | cons other names ih =>
      rw [List.flatMap_cons, List.count_append, count_declaration, ih, List.count_cons]
      by_cases hname : other = name
      · simp [hname, Nat.add_comm]
      · simp [hname]

/-! ## Written lines -/

/-- The written line of an instruction has the shape of one. -/
theorem isCode_written {i : Instruction} (h : (Line.code i).WellRead) {labels : LabelTable}
    (hlabels : labels.Valid) (isa : Isa) :
    Listing.isCode (i.written isa labels).text = true := by
  cases hname : i.label? isa labels with
  | none =>
      rw [Instruction.written_of_label?_eq_none hname]
      exact Listing.isCode_of_wellRead h
  | some name =>
      obtain ⟨a, cut, -, hget, hcut⟩ := Instruction.exists_cut_of_label? hname
      obtain ⟨j, hj, -⟩ := Instruction.read_relabelled h.1 hcut (hlabels a name hget) i.line
      obtain ⟨s, -, hs, -⟩ := Instruction.read_eq_ok_some_iff.1 hj
      rw [Instruction.written_of_label? hname hcut]
      exact Option.isSome_iff_exists.2 ⟨s, hs⟩

/-- A text that has not the shape of an instruction is written only where it stands
as other text. -/
theorem count_map_written {lines : List Line} (h : ∀ line ∈ lines, line.WellRead)
    {labels : LabelTable} (hlabels : labels.Valid) (isa : Isa) {t : Text}
    (ht : Listing.isCode t = false) :
    (lines.map (Line.written isa labels)).count t = (lines.filterMap Line.prose?).count t := by
  induction lines with
  | nil => rfl
  | cons line lines ih =>
      have hrest := ih fun l hl => h l (List.mem_cons_of_mem _ hl)
      have hline : line.WellRead := h line List.mem_cons_self
      cases line with
      | code i =>
          have hne : (i.written isa labels).text ≠ t := by
            rintro rfl
            rw [isCode_written hline hlabels isa] at ht
            contradiction
          rw [List.map_cons, Line.written, List.count_cons_of_ne hne, hrest,
            Line.filterMap_prose?_cons_code]
      | prose u =>
          rw [List.map_cons, Line.written, Line.filterMap_prose?_cons_prose, List.count_cons,
            List.count_cons, hrest]

/-! ## Blocks -/

/-- The lines of each instruction, after instructions with given addresses. -/
def codeBlocks (isa : Isa) (labels : LabelTable) (config : Config) :
    List Address → List Instruction → List (List Text)
  | _, [] => []
  | earlier, i :: is =>
      (declarationAt config labels earlier i.address ++ [(i.written isa labels).text]) ::
        codeBlocks isa labels config (i.address :: earlier) is

theorem length_codeBlocks (isa : Isa) (labels : LabelTable) (config : Config)
    (earlier : List Address) (is : List Instruction) :
    (codeBlocks isa labels config earlier is).length = is.length := by
  induction is generalizing earlier with
  | nil => rfl
  | cons i is ih => simp [codeBlocks, ih]

/-- The blocks make up the lines of the instructions. -/
theorem flatten_codeBlocks (isa : Isa) (labels : LabelTable) (config : Config)
    (earlier : List Address) (is : List Instruction) :
    (codeBlocks isa labels config earlier is).flatten =
      (codePlan config labels earlier is).map (Line.written isa labels) := by
  induction is generalizing earlier with
  | nil => rfl
  | cons i is ih =>
      rw [codeBlocks, List.flatten_cons, ih, codePlan, List.map_append, map_written_prose,
        List.map_cons, Line.written, List.append_assoc, List.singleton_append]

/-- The block of an instruction depends on which addresses the instructions before
it have. -/
theorem getElem?_codeBlocks (isa : Isa) (labels : LabelTable) (config : Config)
    (earlier : List Address) {is : List Instruction} {k : Nat} {i : Instruction}
    (h : is[k]? = some i) :
    (codeBlocks isa labels config earlier is)[k]? =
      some (declarationAt config labels
        (((is.take k).map Instruction.address).reverse ++ earlier) i.address ++
          [(i.written isa labels).text]) := by
  induction is generalizing earlier k with
  | nil => simp at h
  | cons j is ih =>
      cases k with
      | zero =>
          obtain rfl : j = i := by simpa using h
          rfl
      | succ k =>
          rw [codeBlocks, List.getElem?_cons_succ, ih _ (by simpa using h)]
          simp

/-! ## How many lines there are -/

namespace Labelling

variable {isa : Isa} {config : Config} {text : Text} {p : Labelling}

/-- The other lines among the instructions are the declarations of the labels. -/
theorem perm_prose_codePlan (h : ofText isa config text = .ok p) :
    ((codePlan config p.labels [] p.listing.instructions).filterMap Line.prose?).Perm
      (p.labels.names.flatMap (declaration config)) := by
  have hall : (p.listing.instructions.map Instruction.address).filter (fun a => decide (a ∉ [])) =
      p.listing.instructions.map Instruction.address := by simp
  rw [prose_codePlan, hall, labels_eq_build h]
  exact (p.listing.perm_names_build isa config.labelPrefix).flatMap_right _

/-- Each label is declared once. -/
theorem count_name_eq_one (h : ofText isa config text = .ok p) {a : Address} {name : Text}
    (hget : p.labels.get? a = some name) :
    ((codePlan config p.labels [] p.listing.instructions).map
      (Line.written isa p.labels)).count (name ++ [':']) = 1 := by
  have hlabels : p.labels.Valid := labels_valid h
  have hnodup : p.labels.names.Nodup := by
    rw [labels_eq_build h]
    exact LabelTable.nodup_names_build _ _ _
  have hprose : Listing.isCode (name ++ [':']) = false := by
    rw [Listing.isCode, (hlabels a name hget).shape_declaration]
    rfl
  have hlines : ∀ line ∈ codePlan config p.labels [] p.listing.instructions, line.WellRead :=
    wellRead_of_mem_codePlan hlabels (listing_wellFormed h).instructions_read
  rw [count_map_written hlines hlabels isa hprose, (perm_prose_codePlan h).count_eq,
    count_flatMap_declaration]
  exact List.count_eq_one_of_mem hnodup (LabelTable.mem_names_of_get? hget)

/-- The instructions have one line each and the lines of the declarations. -/
theorem length_codePlan (h : ofText isa config text = .ok p) :
    (codePlan config p.labels [] p.listing.instructions).length =
      p.listing.instructions.length + declarationLength config * p.labels.size := by
  rw [← Listing.length_filterMap, code_codePlan, (perm_prose_codePlan h).length_eq,
    length_flatMap_declaration, LabelTable.length_names, Nat.add_comm]

/-- A labelled text has the lines of its listing, those of the banner and those of
the declarations. -/
theorem length_plan (h : ofText isa config text = .ok p) :
    (p.listing.plan config p.labels).length =
      (Text.lines text).length + 4 + declarationLength config * p.labels.size := by
  have hbanner : (bannerLines p.labels.size).length = 4 := rfl
  have hsegments := Listing.length_segments (listing_ofText h)
  rw [Listing.plan]
  simp only [List.length_append, List.length_map, hbanner, length_codePlan h]
  omega

/-- Each line of a labelled text is ended by its only line feed. -/
theorem count_lineFeed (h : ofText isa config text = .ok p) :
    p.text.count '\n' =
      (Text.lines text).length + 4 + declarationLength config * p.labels.size := by
  have hread := Listing.wellRead_of_mem_plan (listing_wellFormed h) (labels_valid h) config
  have hfeed := lineFeed_not_mem_of_mem_written hread (labels_valid h) isa
  rw [text_eq_plan h, count_lineFeed_unlines hfeed, List.length_map, length_plan h]

end Labelling

/-! ## Labels that are put in -/

/-- The written line of an instruction has a name in the place of its last
operand. -/
def Instruction.Splices (isa : Isa) (labels : LabelTable) (i : Instruction) (name : Text) : Prop :=
  ∃ cut text, lastOperand? i.operands = some cut ∧ i.splice? cut name = some text ∧
    i.write isa labels = .ok ⟨text, true⟩

/-- The name that is put into an instruction is the label at its target. -/
theorem Instruction.splices_iff {i : Instruction} (h : i.Placed) {isa : Isa}
    {labels : LabelTable} {name : Text} :
    i.Splices isa labels name ↔ i.label? isa labels = some name := by
  constructor
  · rintro ⟨cut, text, hcut, hsplice, hwrite⟩
    rw [splice?_eq_some h hcut, Option.some.injEq] at hsplice
    rw [write_eq_ok h, Except.ok.injEq] at hwrite
    cases hlabel : i.label? isa labels with
    | none =>
        rw [written_of_label?_eq_none hlabel] at hwrite
        simp at hwrite
    | some other =>
        rw [written_of_label? hlabel hcut, ← hsplice, WrittenLine.mk.injEq] at hwrite
        rw [relabelled_inj.1 hwrite.1]
  · intro hlabel
    obtain ⟨-, cut, -, -, hcut⟩ := exists_cut_of_label? hlabel
    refine ⟨cut, _, hcut, splice?_eq_some h hcut name, ?_⟩
    rw [write_eq_ok h, written_of_label? hlabel hcut]

namespace Labelling

variable {isa : Isa} {config : Config} {text : Text} {p : Labelling}

/-- The instruction at a position has a label at its address, and no instruction
before it has that address. -/
def DeclaredAt (p : Labelling) (k : Nat) (i : Instruction) : Prop :=
  (∃ name, p.labels.get? i.address = some name) ∧
    ∀ j ∈ p.listing.instructions.take k, j.address ≠ i.address

/-- The lines of a labelled text: the header, the banner, a block of lines for each
instruction, and the trailer. -/
structure LaidOut (isa : Isa) (config : Config) (p : Labelling) (blocks : List (List Text)) :
    Prop where
  text_eq : p.text = unlines (p.listing.header ++
    [[], banner, "; labels=".toList ++ decimal p.labels.size, []] ++ blocks.flatten ++
      p.listing.trailer)
  length_eq : blocks.length = p.listing.instructions.length
  /-- The block of an instruction is its written line, after the declaration of its
  label where the label is declared. -/
  block_eq : ∀ k i, p.listing.instructions[k]? = some i →
    ∃ line, i.write isa p.labels = .ok line ∧
      (p.DeclaredAt k i → blocks[k]? = some ((if config.labelSpacing then [[]] else []) ++
        [labelName config.labelPrefix i.address ++ [':'], line.text])) ∧
      (¬ p.DeclaredAt k i → blocks[k]? = some [line.text])

/-- Where a label is declared, its declaration is written. -/
theorem declarationAt_of_declaredAt (h : ofText isa config text = .ok p) {k : Nat}
    {i : Instruction} (hat : p.DeclaredAt k i) :
    declarationAt config p.labels
        ((p.listing.instructions.take k).map Instruction.address).reverse i.address =
      (if config.labelSpacing then [[]] else []) ++
        [labelName config.labelPrefix i.address ++ [':']] := by
  obtain ⟨⟨name, hget⟩, hfirst⟩ := hat
  have hnot : i.address ∉
      ((p.listing.instructions.take k).map Instruction.address).reverse := by
    rw [List.mem_reverse, List.mem_map]
    rintro ⟨j, hj, haddress⟩
    exact hfirst j hj haddress
  have hname : name = labelName config.labelPrefix i.address := by
    rw [labels_eq_build h] at hget
    exact (LabelTable.get?_build_eq_some_iff.1 hget).2.2
  rw [declarationAt_of_not_mem hnot, ← hname, ← declaration_eq_append]
  simp [declarationAt, hget]

/-- Where no label is declared, nothing is written before the instruction. -/
theorem declarationAt_of_not_declaredAt {k : Nat} {i : Instruction}
    (hnot : ¬ p.DeclaredAt k i) :
    declarationAt config p.labels
      ((p.listing.instructions.take k).map Instruction.address).reverse i.address = [] := by
  by_cases hmem : i.address ∈
      ((p.listing.instructions.take k).map Instruction.address).reverse
  · exact declarationAt_of_mem hmem
  · have hnone : p.labels.get? i.address = none := by
      rw [Option.eq_none_iff_forall_ne_some]
      intro name hget
      refine hnot ⟨⟨name, hget⟩, fun j hj haddress => hmem ?_⟩
      exact List.mem_reverse.2 (List.mem_map.2 ⟨j, hj, haddress⟩)
    simp [declarationAt, hnone]

/-- A labelled text is laid out in the blocks of its instructions. -/
theorem laidOut_codeBlocks (h : ofText isa config text = .ok p) :
    LaidOut isa config p (codeBlocks isa p.labels config [] p.listing.instructions) where
  text_eq := by
    rw [text_eq_plan h, flatten_codeBlocks, Listing.plan]
    simp only [List.map_append, map_written_prose]
    rfl
  length_eq := length_codeBlocks _ _ _ _ _
  block_eq := by
    intro k i hi
    have hplaced : i.Placed := (listing_wellFormed h).placed i (List.mem_of_getElem? hi)
    have hblock := getElem?_codeBlocks isa p.labels config [] hi
    rw [List.append_nil] at hblock
    refine ⟨_, Instruction.write_eq_ok hplaced isa p.labels, ?_, ?_⟩
    · intro hat
      rw [hblock, declarationAt_of_declaredAt h hat, List.append_assoc]
      rfl
    · intro hnot
      rw [hblock, declarationAt_of_not_declaredAt hnot]
      rfl

/-- The labelled text has the header, the banner, the instructions with the
declaration of each label before the first instruction at its address, and the
trailer.  So each label is declared once, only labels that are declared are put
into instructions, each of them is, and the number of lines is known. -/
theorem declared_once_and_used (h : ofText isa config text = .ok p) :
    ∃ blocks, LaidOut isa config p blocks ∧
      (∀ a name, p.labels.get? a = some name → blocks.flatten.count (name ++ [':']) = 1) ∧
      (∀ i ∈ p.listing.instructions, ∀ name, i.Splices isa p.labels name →
        ∃ a, p.labels.get? a = some name) ∧
      (∀ a name, p.labels.get? a = some name →
        ∃ i ∈ p.listing.instructions, i.Splices isa p.labels name) ∧
      p.text.count '\n' = (Text.lines text).length + 4 +
        (if config.labelSpacing then 2 * p.labels.size else p.labels.size) := by
  have hplaced : ∀ i ∈ p.listing.instructions, i.Placed := (listing_wellFormed h).placed
  refine ⟨_, laidOut_codeBlocks h, ?_, ?_, ?_, ?_⟩
  · intro a name hget
    rw [flatten_codeBlocks]
    exact count_name_eq_one h hget
  · intro i hi name hsplices
    have hlabel := (Instruction.splices_iff (hplaced i hi)).1 hsplices
    obtain ⟨a, -, -, hget, -⟩ := Instruction.exists_cut_of_label? hlabel
    exact ⟨a, hget⟩
  · intro a name hget
    rw [labels_eq_build h] at hget
    obtain ⟨⟨i, hi, htarget⟩, hhas, rfl⟩ := LabelTable.get?_build_eq_some_iff.1 hget
    refine ⟨i, hi, (Instruction.splices_iff (hplaced i hi)).2 ?_⟩
    rw [labels_eq_build h]
    exact (Instruction.label?_build_eq_some_iff hi).2 ⟨a, ⟨htarget, hhas⟩, rfl⟩
  · rw [count_lineFeed h, declarationLength]
    split <;> simp

theorem declared_once_and_used_sample :
    ∃ p blocks, ofText .rv32 .standard sampleText = .ok p ∧ LaidOut .rv32 .standard p blocks ∧
      blocks.flatten.count "loc_00000004:".toList = 1 ∧
      (∃ i ∈ p.listing.instructions, i.Splices .rv32 p.labels "loc_00000004".toList) ∧
      p.text.count '\n' = 5 + 4 + 2 * 2 := by
  obtain ⟨p, hp⟩ := exists_ofText_sampleText
  obtain ⟨blocks, hlaid, honce, -, hused, hcount⟩ := declared_once_and_used hp
  have hlabels : p.labels.get? 4 = some "loc_00000004".toList ∧ p.labels.size = 2 := by
    obtain rfl := Except.ok.inj hp
    decide +kernel
  refine ⟨p, blocks, hp, hlaid, honce 4 _ hlabels.1, hused 4 _ hlabels.1, ?_⟩
  rw [hcount, hlabels.2]
  decide +kernel

end Labelling

end BranchLabels
