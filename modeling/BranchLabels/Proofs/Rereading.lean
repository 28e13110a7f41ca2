import BranchLabels.Labelling
import BranchLabels.Proofs.LabelTable
import BranchLabels.Proofs.Plan
import BranchLabels.Rv32

/-!
# A labelled listing is read again

The text of a labelled listing is a listing with the same instructions.  No line
of the header, the banner, the declarations or the trailer is taken for an
instruction, and each instruction line is read as the instruction it was written
for.

Main results:

- Theorem `Labelling.ofText_eq_ok_iff`: when a text is labelled, and what comes
  out.
- Theorem `Listing.wellRead_of_mem_plan`: each line of the plan of a labelled
  listing is what its text is read as.
- Theorem `Labelling.exists_reread`: the listing that the labelled text is read
  as, instruction by instruction.
- Theorem `Labelling.labelled_text_is_listing`: the same in terms of the segments
  and the written lines.
-/

namespace BranchLabels

open Text

/-! ## When a text is labelled -/

/-- The names of a table are good when their prefix is. -/
theorem LabelTable.valid_build {stem : Text} (h : Config.ValidPrefix stem) (isa : Isa)
    (is : List Instruction) : (build isa is stem).Valid := by
  intro a name hget
  obtain ⟨-, -, rfl⟩ := get?_build_eq_some_iff.1 hget
  exact h.labelName a

namespace Labelling

/-- The labelled form of a listing. -/
def ofListing (isa : Isa) (config : Config) (l : Listing) : Labelling :=
  let labels := LabelTable.build isa l.instructions config.labelPrefix
  { listing := l
    labels
    text := unlines ((l.plan config labels).map (Line.written isa labels))
    events := readEvent l :: countWarning l ++ strayEvents isa l ++
      [.listingLabelled l.instructions.length labels.size] }

variable {isa : Isa} {config : Config} {text : Text} {p : Labelling}

/-- A text is labelled exactly when label names may start with the given prefix
and the text is a listing. -/
theorem ofText_eq_ok_iff :
    ofText isa config text = .ok p ↔
      Config.ValidPrefix config.labelPrefix ∧
        ∃ l, Listing.ofText text = .ok l ∧ p = ofListing isa config l := by
  unfold ofText Config.validate
  by_cases hstem : Config.ValidPrefix config.labelPrefix
  · cases hlisting : Listing.ofText text with
    | error e => simp [hstem, bind, Except.bind]
    | ok l =>
        have hwritten := Listing.labelledText_eq_ok (Listing.wellFormed_of_ofText hlisting) isa
          (LabelTable.build isa l.instructions config.labelPrefix) config
        simp [hstem, hwritten, bind, Except.bind, pure, Except.pure, ofListing, eq_comm]
  · simp [hstem, bind, Except.bind]

/-- A labelled text is labelled from the listing that it is. -/
theorem listing_ofText (h : ofText isa config text = .ok p) :
    Listing.ofText text = .ok p.listing := by
  obtain ⟨-, l, hl, rfl⟩ := ofText_eq_ok_iff.1 h
  exact hl

theorem listing_wellFormed (h : ofText isa config text = .ok p) : p.listing.WellFormed :=
  Listing.wellFormed_of_ofText (listing_ofText h)

/-- A labelled text is that of its plan. -/
theorem text_eq_plan (h : ofText isa config text = .ok p) :
    p.text = unlines ((p.listing.plan config p.labels).map (Line.written isa p.labels)) := by
  obtain ⟨-, l, -, rfl⟩ := ofText_eq_ok_iff.1 h
  rfl

/-- The labels of a labelled text are those of its instructions. -/
theorem labels_eq_build (h : ofText isa config text = .ok p) :
    p.labels = LabelTable.build isa p.listing.instructions config.labelPrefix := by
  obtain ⟨-, l, -, rfl⟩ := ofText_eq_ok_iff.1 h
  rfl

/-- The names of a labelled text are good. -/
theorem labels_valid (h : ofText isa config text = .ok p) : p.labels.Valid := by
  rw [labels_eq_build h]
  exact LabelTable.valid_build (ofText_eq_ok_iff.1 h).1 isa p.listing.instructions

/-- A labelled text has the lines of its listing. -/
theorem text_eq_unlines (h : ofText isa config text = .ok p) {written : List Text}
    (hwritten : p.listing.labelledLines isa p.labels config = .ok written) :
    p.text = unlines written := by
  have htext := Listing.labelledText_eq_ok (listing_wellFormed h) isa p.labels config
  rw [Listing.labelledText, hwritten, ← text_eq_plan h] at htext
  exact (Except.ok.inj htext).symm

end Labelling

/-! ## The lines that are added -/

/-- A decimal numeral has digits only. -/
theorem isDigit_of_mem_decimal {n : Nat} {c : Char} (hc : c ∈ decimal n) :
    c.isDigit = true :=
  Nat.isDigit_of_mem_toDigits (by decide) (by decide) hc

/-- The banner has no colons and no line ends. -/
theorem ne_of_mem_bannerLines {n : Nat} {t : Text} {c : Char} (ht : t ∈ bannerLines n)
    (hc : c ∈ t) : c ≠ ':' ∧ c ≠ '\n' ∧ c ≠ '\r' := by
  have hword : ∀ d ∈ "; labels=".toList ++ banner, d ≠ ':' ∧ d ≠ '\n' ∧ d ≠ '\r' := by
    have hall : ("; labels=".toList ++ banner).all
        (fun d => d != ':' && d != '\n' && d != '\r') = true := by decide
    intro d hd
    simpa [and_assoc] using List.all_eq_true.1 hall d hd
  have hdigits : ∀ d : Char, d.isDigit = true → d ≠ ':' ∧ d ≠ '\n' ∧ d ≠ '\r' := by
    intro d hd
    refine ⟨?_, ?_, ?_⟩ <;> rintro rfl <;> exact absurd hd (by decide)
  simp only [bannerLines, List.mem_cons, List.not_mem_nil, or_false] at ht
  rcases ht with rfl | rfl | rfl | rfl
  · exact absurd hc List.not_mem_nil
  · exact hword c (List.mem_append_right _ hc)
  · rcases List.mem_append.1 hc with hc | hc
    · exact hword c (List.mem_append_left _ hc)
    · exact hdigits c (isDigit_of_mem_decimal hc)
  · exact absurd hc List.not_mem_nil

/-- No line of the banner is an instruction. -/
theorem wellRead_of_mem_bannerLines {n : Nat} {t : Text} (ht : t ∈ bannerLines n) :
    (Line.prose t).WellRead := by
  have hcolon : ':' ∉ t := fun hc => (ne_of_mem_bannerLines ht hc).1 rfl
  have hfeed : '\n' ∉ t := fun hc => (ne_of_mem_bannerLines ht hc).2.1 rfl
  exact ⟨LineShape.ofText?_eq_none_of_colon_not_mem hcolon, hfeed⟩

/-- No line of the banner ends with a carriage return. -/
theorem map_dropCarriageReturn_bannerLines (n : Nat) :
    (bannerLines n).map dropCarriageReturn = bannerLines n := by
  apply map_dropCarriageReturn_eq_self
  intro t ht
  apply dropCarriageReturn_eq_self
  intro hlast
  exact (ne_of_mem_bannerLines ht (List.mem_of_getLast? hlast)).2.2 rfl

/-- A declaration is an empty line or a name with a colon. -/
theorem eq_of_mem_declaration {config : Config} {name t : Text}
    (ht : t ∈ declaration config name) : t = [] ∨ t = name ++ [':'] := by
  unfold declaration at ht
  split at ht
  · simpa using ht
  · exact .inr (by simpa using ht)

/-- No line of a declaration is an instruction. -/
theorem wellRead_of_mem_declaration {config : Config} {name t : Text}
    (hname : Config.ValidPrefix name) (ht : t ∈ declaration config name) :
    (Line.prose t).WellRead := by
  rcases eq_of_mem_declaration ht with rfl | rfl
  · exact ⟨rfl, by simp⟩
  · refine ⟨hname.shape_declaration, ?_⟩
    simp [hname.lineFeed_not_mem]

/-- No line of a declaration ends with a carriage return. -/
theorem map_dropCarriageReturn_declarations (config : Config) (labels : LabelTable)
    (addresses : List Address) :
    (declarations config labels addresses).map dropCarriageReturn =
      declarations config labels addresses := by
  apply map_dropCarriageReturn_eq_self
  intro t ht
  obtain ⟨name, -, ht⟩ := List.mem_flatMap.1 ht
  rcases eq_of_mem_declaration ht with rfl | rfl
  · rfl
  · exact dropCarriageReturn_eq_self (by simp)

/-- Each line of the instructions is what its text is read as. -/
theorem wellRead_of_mem_codePlan {config : Config} {labels : LabelTable}
    (hlabels : labels.Valid) {is : List Instruction}
    (h : ∀ i ∈ is, (Line.code i).WellRead) {earlier : List Address} :
    ∀ line ∈ codePlan config labels earlier is, line.WellRead := by
  induction is generalizing earlier with
  | nil => simp [codePlan]
  | cons i is ih =>
      intro line hline
      rw [codePlan, List.mem_append, List.mem_cons] at hline
      rcases hline with hline | rfl | hline
      · obtain ⟨t, ht, rfl⟩ := List.mem_map.1 hline
        unfold declarationAt at ht
        split at ht
        · next name hget =>
          split at ht
          · contradiction
          · exact wellRead_of_mem_declaration (hlabels _ name hget) ht
        · contradiction
      · exact h i List.mem_cons_self
      · exact ih (fun j hj => h j (List.mem_cons_of_mem _ hj)) line hline

/-- Each line of the plan of a labelled listing is what its text is read as. -/
theorem Listing.wellRead_of_mem_plan {l : Listing} (h : l.WellFormed) {labels : LabelTable}
    (hlabels : labels.Valid) (config : Config) :
    ∀ line ∈ l.plan config labels, line.WellRead := by
  intro line hline
  simp only [plan, List.mem_append, List.mem_map] at hline
  rcases hline with ((⟨t, ht, rfl⟩ | ⟨t, ht, rfl⟩) | hline) | ⟨t, ht, rfl⟩
  · exact h.header_prose t ht
  · exact wellRead_of_mem_bannerLines ht
  · exact wellRead_of_mem_codePlan hlabels h.instructions_read line hline
  · exact h.trailer_prose t ht

/-! ## Reading the plan -/

/-- What a written line is read as. -/
inductive Line.Restores (isa : Isa) (labels : LabelTable) : Line → Line → Prop where
  | prose (t : Text) : Restores isa labels (.prose t) (.prose (dropCarriageReturn t))
  | code {i j : Instruction} (h : i.Restores isa labels j) :
      Restores isa labels (.code i) (.code j)

/-- Each written line is read as the line it was written for. -/
theorem Line.WellRead.exists_restores {line : Line} (h : line.WellRead) {labels : LabelTable}
    (hlabels : labels.Valid) (isa : Isa) (number : Nat) :
    ∃ line', Line.read number (dropCarriageReturn (line.written isa labels)) = .ok line' ∧
      Line.Restores isa labels line line' := by
  cases line with
  | code i =>
      obtain ⟨j, hj, hrestores⟩ := Instruction.exists_restores h.1 hlabels isa number
      exact ⟨.code j, Line.read_eq_ok_code_iff.2 hj, .code hrestores⟩
  | prose t =>
      refine ⟨.prose (dropCarriageReturn t), ?_, .prose t⟩
      exact Line.read_eq_ok_prose_iff.2
        ⟨LineShape.ofText?_dropCarriageReturn_eq_none h.1, rfl⟩

/-- A written line has no line feed. -/
theorem Line.WellRead.lineFeed_not_mem_written {line : Line} (h : line.WellRead)
    {labels : LabelTable} (hlabels : labels.Valid) (isa : Isa) :
    '\n' ∉ line.written isa labels := by
  cases line with
  | code i =>
      exact Instruction.lineFeed_not_mem_written hlabels (Instruction.placed_of_read h.1) h.2
  | prose t => exact h.2

/-- Written lines have no line feeds. -/
theorem lineFeed_not_mem_of_mem_written {lines : List Line} (h : ∀ line ∈ lines, line.WellRead)
    {labels : LabelTable} (hlabels : labels.Valid) (isa : Isa) :
    ∀ t ∈ lines.map (Line.written isa labels), '\n' ∉ t := by
  intro t ht
  obtain ⟨line, hline, rfl⟩ := List.mem_map.1 ht
  exact (h line hline).lineFeed_not_mem_written hlabels isa

/-- The written lines of a plan are read as the lines they were written for. -/
theorem exists_readAll_unlines {lines : List Line} (h : ∀ line ∈ lines, line.WellRead)
    {labels : LabelTable} (hlabels : labels.Valid) (isa : Isa) :
    ∃ lines', Line.readAll 1 (Text.lines (unlines (lines.map (Line.written isa labels)))) =
        .ok lines' ∧ List.Forall₂ (Line.Restores isa labels) lines lines' := by
  rw [lines_unlines (lineFeed_not_mem_of_mem_written h hlabels isa), List.map_map]
  apply Line.exists_readAll
  intro line hline number
  exact (h line hline).exists_restores hlabels isa number

/-! ## The segments of what is read -/

section Segments

variable {isa : Isa} {labels : LabelTable} {lines lines' : List Line}

theorem Line.Restores.isProse_eq {line line' : Line} (h : Line.Restores isa labels line line') :
    line'.isProse = line.isProse := by
  cases h <;> rfl

/-- The lines before the first instruction are read as such. -/
theorem forall₂_takeWhile_isProse (h : List.Forall₂ (Line.Restores isa labels) lines lines') :
    List.Forall₂ (Line.Restores isa labels) (lines.takeWhile Line.isProse)
      (lines'.takeWhile Line.isProse) := by
  induction h with
  | nil => exact .nil
  | cons hline _ ih =>
      rw [List.takeWhile_cons, List.takeWhile_cons, hline.isProse_eq]
      split
      · exact .cons hline ih
      · exact .nil

/-- The lines from the first instruction on are read as such. -/
theorem forall₂_dropWhile_isProse (h : List.Forall₂ (Line.Restores isa labels) lines lines') :
    List.Forall₂ (Line.Restores isa labels) (lines.dropWhile Line.isProse)
      (lines'.dropWhile Line.isProse) := by
  induction h with
  | nil => exact .nil
  | cons hline hlines ih =>
      rw [List.dropWhile_cons, List.dropWhile_cons, hline.isProse_eq]
      split
      · exact ih
      · exact .cons hline hlines

/-- Other text is read as it is, less one carriage return at the end of each
line. -/
theorem filterMap_prose?_of_restores
    (h : List.Forall₂ (Line.Restores isa labels) lines lines') :
    lines'.filterMap Line.prose? = (lines.filterMap Line.prose?).map dropCarriageReturn := by
  induction h with
  | nil => rfl
  | cons hline _ ih =>
      cases hline with
      | prose t => simp [Line.prose?, ih]
      | code hij => simp [List.filterMap_cons, Line.prose?, ih]

/-- Each instruction is read as the instruction it was written for. -/
theorem filterMap_code?_of_restores
    (h : List.Forall₂ (Line.Restores isa labels) lines lines') :
    List.Forall₂ (Instruction.Restores isa labels) (lines.filterMap Line.code?)
      (lines'.filterMap Line.code?) := by
  induction h with
  | nil => exact .nil
  | cons hline _ ih =>
      cases hline with
      | prose t => simpa [List.filterMap_cons, Line.code?] using ih
      | code hij => simpa [List.filterMap_cons, Line.code?] using And.intro hij ih

end Segments

namespace Labelling

variable {isa : Isa} {config : Config} {text : Text} {p : Labelling}

/-- The labelled text is read as a listing whose instructions are those of the
given one, and whose other lines are those that were written. -/
theorem exists_reread (h : ofText isa config text = .ok p) :
    ∃ l, Listing.ofText p.text = .ok l ∧
      l.header = p.listing.header.map dropCarriageReturn ++ bannerLines p.labels.size ++
        declarations config p.labels (p.listing.addresses.take 1) ∧
      List.Forall₂ (Instruction.Restores isa p.labels) p.listing.instructions l.instructions ∧
      l.trailer = declarations config p.labels (p.listing.addresses.drop 1) ++
        p.listing.trailer.map dropCarriageReturn := by
  have hlabels : p.labels.Valid := labels_valid h
  obtain ⟨-, l, hl, rfl⟩ := ofText_eq_ok_iff.1 h
  have hwell : l.WellFormed := Listing.wellFormed_of_ofText hl
  obtain ⟨lines, hlines, hrestores⟩ :=
    exists_readAll_unlines (Listing.wellRead_of_mem_plan hwell hlabels config) hlabels isa
  refine ⟨Listing.ofReadLines lines, Listing.ofText_eq_ok_iff.2 ⟨lines, hlines, rfl⟩, ?_⟩
  have hplan := Listing.ofReadLines_plan hwell config (ofListing isa config l).labels
  refine ⟨?_, ?_, ?_⟩
  · calc (Listing.ofReadLines lines).header
        = (Listing.ofReadLines (l.plan config (ofListing isa config l).labels)).header.map
            dropCarriageReturn :=
          filterMap_prose?_of_restores (forall₂_takeWhile_isProse hrestores)
      _ = _ := by
          rw [hplan, List.map_append, List.map_append, map_dropCarriageReturn_bannerLines,
            map_dropCarriageReturn_declarations]
          rfl
  · have hcode := filterMap_code?_of_restores hrestores
    rwa [show (l.plan config (ofListing isa config l).labels).filterMap Line.code? =
      l.instructions from congrArg Listing.instructions hplan] at hcode
  · calc (Listing.ofReadLines lines).trailer
        = (Listing.ofReadLines (l.plan config (ofListing isa config l).labels)).trailer.map
            dropCarriageReturn :=
          filterMap_prose?_of_restores (forall₂_dropWhile_isProse hrestores)
      _ = _ := by
          rw [hplan, List.map_append, map_dropCarriageReturn_declarations]
          rfl

/-- What a labelled text is read as, in terms of the segments of the given listing
and of the lines that were written. -/
structure ReadAgain (isa : Isa) (config : Config) (p : Labelling) (l : Listing) : Prop where
  /-- The instructions are the same, one by one, and stand on the written lines. -/
  instructions : List.Forall₂ (fun i j =>
      j.address = i.address ∧ j.rawBytes = i.rawBytes ∧ j.mnemonic = i.mnemonic ∧
        ∃ line, i.write isa p.labels = .ok line ∧ j.toText = dropCarriageReturn line.text)
    p.listing.instructions l.instructions
  /-- The banner and the declaration of the first instruction follow the header. -/
  header : l.header = p.listing.header.map dropCarriageReturn ++
    [[], banner, "; labels=".toList ++ decimal p.labels.size, []] ++
      declarations config p.labels (p.listing.addresses.take 1)
  /-- The declarations of all later addresses come before the trailer. -/
  trailer : l.trailer = declarations config p.labels (p.listing.addresses.drop 1) ++
    p.listing.trailer.map dropCarriageReturn

/-- The labelled text is again a listing: it has the same instructions on the
written lines, and its other lines are those of the given listing, the banner and
the declarations, each less one carriage return at its end. -/
theorem labelled_text_is_listing (h : ofText isa config text = .ok p) :
    ∃ l, Listing.ofText p.text = .ok l ∧ p.ReadAgain isa config l := by
  obtain ⟨l, hl, hheader, hinstructions, htrailer⟩ := exists_reread h
  obtain ⟨-, l₀, hl₀, rfl⟩ := ofText_eq_ok_iff.1 h
  refine ⟨l, hl, ?_, hheader, htrailer⟩
  have hplaced := (Listing.wellFormed_of_ofText hl₀).placed
  have hboth := (List.forall₂_and_left _ _).2 ⟨hplaced, hinstructions⟩
  apply hboth.imp
  rintro i j ⟨hi, hij⟩
  exact ⟨hij.address_eq, hij.rawBytes_eq, hij.mnemonic_eq, _, Instruction.write_eq_ok hi _ _,
    hij.toText_eq⟩

/-- A listing with all that makes reading it again hard: carriage returns at the
ends of lines, text between the instructions, a labelled first instruction and an
address that occurs twice. -/
def sampleText : Text :=
  "; fw\r\r\n0x0: 6f j 0x0\nnote\n0x4: 63 bne a0, a1, 0 \n0x4: 13 jalr 8\r".toList

/-- The sample can be labelled. -/
theorem exists_ofText_sampleText : ∃ p, ofText .rv32 .standard sampleText = .ok p :=
  ⟨_, rfl⟩

theorem labelled_text_is_listing_sample :
    ∃ p l, ofText .rv32 .standard sampleText = .ok p ∧ Listing.ofText p.text = .ok l ∧
      p.ReadAgain .rv32 .standard l ∧
      l.trailer = ["".toList, "loc_00000004:".toList, "note".toList] := by
  obtain ⟨p, hp⟩ := exists_ofText_sampleText
  obtain ⟨l, hl, hread⟩ := labelled_text_is_listing hp
  refine ⟨p, l, hp, hl, hread, ?_⟩
  rw [hread.trailer]
  obtain rfl := Except.ok.inj hp
  decide +kernel

end Labelling

end BranchLabels
