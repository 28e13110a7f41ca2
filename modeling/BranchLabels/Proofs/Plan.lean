import BranchLabels.Proofs.Listing
import BranchLabels.Proofs.Rewriting

/-!
# The plan of a labelled listing

Which lines a labelled listing has, before it is said how each of them is
written: the header, the banner, each instruction with the declaration of its
label before the first instruction of an address, and the trailer.  The lines
themselves are those of the plan, with a label put into each instruction that has
one at its target.

Main results:

- Theorem `Listing.labelledText_eq_ok`: the labelled text is the text of the
  plan.
- Theorem `prose_codePlan`: the declarations are those of the addresses with a
  label, each at its first instruction.
- Theorem `Listing.ofReadLines_plan`: the segments of the plan.
-/

namespace BranchLabels

open Text

/-! ## Declarations -/

/-- The declarations of some addresses, as far as these have a label. -/
def declarations (config : Config) (labels : LabelTable) (addresses : List Address) :
    List Text :=
  (addresses.filterMap labels.get?).flatMap (declaration config)

/-- The addresses of a listing, each once and in the order of their first
instructions. -/
def Listing.addresses (l : Listing) : List Address :=
  (l.instructions.map Instruction.address).eraseDups

@[simp] theorem declarations_nil (config : Config) (labels : LabelTable) :
    declarations config labels [] = [] := rfl

/-- The first of some addresses is declared first. -/
theorem declarations_cons (config : Config) (labels : LabelTable) (a : Address)
    (addresses : List Address) :
    declarations config labels (a :: addresses) =
      declarationAt config labels [] a ++ declarations config labels addresses := by
  unfold declarations declarationAt
  cases hget : labels.get? a with
  | none => simp [hget]
  | some name => simp [hget]

/-- An address that occurred before is not declared again. -/
theorem declarationAt_of_mem {config : Config} {labels : LabelTable} {earlier : List Address}
    {a : Address} (h : a ∈ earlier) : declarationAt config labels earlier a = [] := by
  unfold declarationAt
  split
  · exact if_pos h
  · rfl

/-- For an address that did not occur before, it does not matter which ones
did. -/
theorem declarationAt_of_not_mem {config : Config} {labels : LabelTable}
    {earlier : List Address} {a : Address} (h : a ∉ earlier) :
    declarationAt config labels earlier a = declarationAt config labels [] a := by
  unfold declarationAt
  split
  · simp [h]
  · rfl

/-! ## The plan -/

/-- The lines of the instructions, after instructions with given addresses. -/
def codePlan (config : Config) (labels : LabelTable) : List Address → List Instruction →
    List Line
  | _, [] => []
  | earlier, i :: is =>
      (declarationAt config labels earlier i.address).map .prose ++
        .code i :: codePlan config labels (i.address :: earlier) is

/-- The lines of a labelled listing. -/
def Listing.plan (config : Config) (labels : LabelTable) (l : Listing) : List Line :=
  l.header.map .prose ++ (bannerLines labels.size).map .prose ++
    codePlan config labels [] l.instructions ++ l.trailer.map .prose

/-- How a line of the plan is written. -/
def Line.written (isa : Isa) (labels : LabelTable) : Line → Text
  | .code i => (i.written isa labels).text
  | .prose t => t

theorem map_written_prose (isa : Isa) (labels : LabelTable) (ts : List Text) :
    (ts.map Line.prose).map (Line.written isa labels) = ts := by
  rw [List.map_map]
  exact List.map_id ts

/-- The lines of the instructions are those of their plan. -/
theorem codeLines_eq_ok (isa : Isa) (labels : LabelTable) (config : Config)
    (earlier : List Address) {is : List Instruction} (h : ∀ i ∈ is, i.Placed) :
    codeLines isa labels config earlier is =
      .ok ((codePlan config labels earlier is).map (Line.written isa labels)) := by
  induction is generalizing earlier with
  | nil => rfl
  | cons i is ih =>
      have hi : i.Placed := h i List.mem_cons_self
      have his : ∀ j ∈ is, j.Placed := fun j hj => h j (List.mem_cons_of_mem _ hj)
      simp only [codeLines, Instruction.write_eq_ok hi, ih (i.address :: earlier) his, codePlan,
        List.map_append, map_written_prose, List.map_cons, Line.written]

/-- The plan of the instructions goes on with the addresses that occurred so
far. -/
theorem codePlan_append (config : Config) (labels : LabelTable) (earlier : List Address)
    (is js : List Instruction) :
    codePlan config labels earlier (is ++ js) =
      codePlan config labels earlier is ++
        codePlan config labels ((is.map Instruction.address).reverse ++ earlier) js := by
  induction is generalizing earlier with
  | nil => rfl
  | cons i is ih => simp [codePlan, ih]

/-- The instructions of a listing that was read have their operands in their
lines. -/
theorem Listing.WellFormed.placed {l : Listing} (h : l.WellFormed) :
    ∀ i ∈ l.instructions, i.Placed :=
  fun i hi => Instruction.placed_of_read (h.instructions_read i hi).1

/-- The labelled text is the text of the plan. -/
theorem Listing.labelledText_eq_ok {l : Listing} (h : l.WellFormed) (isa : Isa)
    (labels : LabelTable) (config : Config) :
    l.labelledText isa labels config =
      .ok (unlines ((l.plan config labels).map (Line.written isa labels))) := by
  simp only [labelledText, labelledLines, codeLines_eq_ok isa labels config [] h.placed,
    Except.map, plan, List.map_append, map_written_prose]

/-! ## The segments of the plan -/

theorem filterMap_prose?_map_prose (ts : List Text) :
    (ts.map Line.prose).filterMap Line.prose? = ts := by
  rw [List.filterMap_map]
  exact List.filterMap_some

theorem filterMap_code?_map_prose (ts : List Text) :
    (ts.map Line.prose).filterMap Line.code? = [] := by
  rw [List.filterMap_eq_nil_iff]
  intro line hline
  obtain ⟨t, -, rfl⟩ := List.mem_map.1 hline
  rfl

/-- The plan has the instructions in their order. -/
theorem code_codePlan (config : Config) (labels : LabelTable) (earlier : List Address)
    (is : List Instruction) :
    (codePlan config labels earlier is).filterMap Line.code? = is := by
  induction is generalizing earlier with
  | nil => rfl
  | cons i is ih =>
      have hcode : (Line.code i).code? = some i := rfl
      rw [codePlan, List.filterMap_append, filterMap_code?_map_prose, List.nil_append,
        List.filterMap_cons_some hcode, ih]

/-- The first instruction is declared first. -/
theorem prose_codePlan_cons (config : Config) (labels : LabelTable) (earlier : List Address)
    (i : Instruction) (is : List Instruction) :
    (codePlan config labels earlier (i :: is)).filterMap Line.prose? =
      declarationAt config labels earlier i.address ++
        (codePlan config labels (i.address :: earlier) is).filterMap Line.prose? := by
  rw [codePlan, List.filterMap_append, filterMap_prose?_map_prose, List.filterMap_cons_none rfl]

/-- The declarations are those of the addresses with a label that did not occur
before, each at its first instruction. -/
theorem prose_codePlan (config : Config) (labels : LabelTable) (earlier : List Address)
    (is : List Instruction) :
    (codePlan config labels earlier is).filterMap Line.prose? =
      declarations config labels
        ((is.map Instruction.address).filter (fun a => decide (a ∉ earlier))).eraseDups := by
  induction is generalizing earlier with
  | nil => rfl
  | cons i is ih =>
      rw [prose_codePlan_cons, ih, List.map_cons, List.filter_cons]
      by_cases hmem : i.address ∈ earlier
      · have hearlier : ∀ a, a ∉ i.address :: earlier ↔ a ∉ earlier := by
          intro a
          simp only [List.mem_cons, not_or, and_iff_right_iff_imp]
          rintro hnot rfl
          exact hnot hmem
        simp only [declarationAt_of_mem hmem, hearlier, hmem, not_true_eq_false, decide_false,
          Bool.false_eq_true, if_false, List.nil_append]
      · have hfilter : ((is.map Instruction.address).filter fun a => decide (a ∉ earlier)).filter
            (fun a => !a == i.address) =
              (is.map Instruction.address).filter fun a => decide (a ∉ i.address :: earlier) := by
          rw [List.filter_filter]
          apply List.filter_congr
          intro a _
          by_cases ha : a = i.address <;> simp [ha]
        simp only [hmem, not_false_eq_true, decide_true, if_true, List.eraseDups_cons, hfilter,
          declarations_cons, declarationAt_of_not_mem hmem]

namespace Listing

/-- Lines without an instruction are a header. -/
theorem ofReadLines_map_prose (ts : List Text) :
    ofReadLines (ts.map .prose) = ⟨ts, [], []⟩ := by
  have hall : ∀ line ∈ ts.map Line.prose, line.isProse = true := by
    intro line hline
    obtain ⟨t, -, rfl⟩ := List.mem_map.1 hline
    rfl
  simp only [ofReadLines, List.takeWhile_eq_self_iff.2 hall, List.dropWhile_eq_nil_iff.2 hall,
    filterMap_prose?_map_prose, filterMap_code?_map_prose, List.filterMap_nil]

/-- The first instruction ends the header. -/
theorem ofReadLines_append_code (ts : List Text) (i : Instruction) (lines : List Line) :
    ofReadLines (ts.map .prose ++ .code i :: lines) =
      ⟨ts, i :: lines.filterMap Line.code?, lines.filterMap Line.prose?⟩ := by
  have hall : ∀ line ∈ ts.map Line.prose, line.isProse = true := by
    intro line hline
    obtain ⟨t, -, rfl⟩ := List.mem_map.1 hline
    rfl
  have hcode : ¬ (Line.code i).isProse = true := by simp [Line.isProse]
  simp only [ofReadLines, List.takeWhile_append_of_pos hall, List.dropWhile_append_of_pos hall,
    List.takeWhile_cons_of_neg hcode, List.dropWhile_cons_of_neg hcode, List.append_nil,
    List.filterMap_append, filterMap_prose?_map_prose, filterMap_code?_map_prose,
    List.nil_append]
  rfl

/-- The segments of the plan: the declaration of the first instruction ends the
header, and all later ones start the trailer. -/
theorem ofReadLines_plan {l : Listing} (h : l.WellFormed) (config : Config)
    (labels : LabelTable) :
    ofReadLines (l.plan config labels) =
      ⟨l.header ++ bannerLines labels.size ++ declarations config labels (l.addresses.take 1),
        l.instructions, declarations config labels (l.addresses.drop 1) ++ l.trailer⟩ := by
  cases hinstructions : l.instructions with
  | nil =>
      have hplan : l.plan config labels =
          (l.header ++ bannerLines labels.size).map Line.prose := by
        simp [plan, hinstructions, h.trailer_eq_nil hinstructions, codePlan]
      rw [hplan, ofReadLines_map_prose]
      simp [addresses, hinstructions, h.trailer_eq_nil hinstructions]
  | cons i is =>
      have hplan : l.plan config labels =
          (l.header ++ bannerLines labels.size ++ declarationAt config labels [] i.address).map
              Line.prose ++
            .code i :: (codePlan config labels [i.address] is ++ l.trailer.map Line.prose) := by
        simp [plan, hinstructions, codePlan]
      have haddresses : l.addresses = i.address ::
          ((is.map Instruction.address).filter fun a => decide (a ∉ [i.address])).eraseDups := by
        rw [addresses, hinstructions, List.map_cons, List.eraseDups_cons]
        congr 2
        apply List.filter_congr
        intro a _
        by_cases ha : a = i.address <;> simp [ha]
      rw [hplan, ofReadLines_append_code, haddresses, List.filterMap_append,
        List.filterMap_append, code_codePlan, prose_codePlan, filterMap_code?_map_prose,
        filterMap_prose?_map_prose, List.append_nil, List.take_succ_cons, List.take_zero,
        List.drop_succ_cons, List.drop_zero, declarations_cons, declarations_nil,
        List.append_nil]

end Listing

end BranchLabels
