import BranchLabels.Proofs.ControlFlow
import BranchLabels.Proofs.Refusal

/-!
# What a configuration decides

A configuration says how labels are named and whether they are set off.  All else
about a labelled text follows from the listing and the instruction set: which
addresses get a label, where it is declared and which operands it replaces.  The
labelled text is a template in which the names are left out, filled in as the
configuration says.

Main results:

- Theorem `LabelTable.keys_build`: the prefix does not matter for which addresses get
  a label.
- Theorem `Instruction.fill_template`: the written line of an instruction is its
  template with the names filled in.
- Theorem `Listing.fill_template`: so is the labelled text.
- Theorem `Labelling.configuration_only_names_and_spaces`: one template gives the
  labelled text of every configuration.
-/

namespace BranchLabels

open Text

/-! ## Templates -/

/-- A part of a line: fixed text, or a hole for the name of the label at an
address. -/
inductive Piece where
  | fixed (t : Text)
  | hole (a : Address)
  deriving DecidableEq

/-- A line with holes. -/
structure TemplateLine where
  pieces : List Piece
  /-- Whether the line declares a label. -/
  declares : Bool
  deriving DecidableEq

/-- The lines of a text with holes. -/
abbrev Template := List TemplateLine

/-- The text of a piece when label names start with a prefix. -/
def Piece.fill (stem : Text) : Piece → Text
  | .fixed t => t
  | .hole a => labelName stem a

namespace TemplateLine

/-- A line without holes. -/
def plain (t : Text) : TemplateLine :=
  ⟨[.fixed t], false⟩

/-- The line that declares the label at an address. -/
def declaring (a : Address) : TemplateLine :=
  ⟨[.hole a, .fixed [':']], true⟩

/-- The lines that a line with holes becomes: itself with the names filled in, after
an empty line when it declares a label and labels are set off. -/
def fill (config : Config) (line : TemplateLine) : List Text :=
  (if line.declares ∧ config.labelSpacing then [[]] else []) ++
    [line.pieces.flatMap (Piece.fill config.labelPrefix)]

@[simp] theorem fill_plain (config : Config) (t : Text) : (plain t).fill config = [t] := by
  simp [fill, plain, Piece.fill]

/-- A declaration with its name filled in. -/
@[simp] theorem fill_declaring (config : Config) (a : Address) :
    (declaring a).fill config = declaration config (labelName config.labelPrefix a) := by
  simp [fill, declaring, Piece.fill, declaration_eq_append]

end TemplateLine

/-- The lines of a template with the names filled in. -/
def Template.lines (config : Config) (template : Template) : List Text :=
  template.flatMap (TemplateLine.fill config)

/-- The text of a template with the names filled in. -/
def Template.fill (config : Config) (template : Template) : Text :=
  unlines (Template.lines config template)

@[simp] theorem Template.lines_append (config : Config) (s t : Template) :
    Template.lines config (s ++ t) = Template.lines config s ++ Template.lines config t :=
  List.flatMap_append

@[simp] theorem Template.lines_cons (config : Config) (line : TemplateLine) (t : Template) :
    Template.lines config (line :: t) = line.fill config ++ Template.lines config t :=
  List.flatMap_cons

/-- Lines without holes stay as they are. -/
@[simp] theorem Template.lines_map_plain (config : Config) (ts : List Text) :
    Template.lines config (ts.map TemplateLine.plain) = ts := by
  induction ts with
  | nil => rfl
  | cons t ts ih => rw [List.map_cons, lines_cons, ih, TemplateLine.fill_plain]; rfl

/-! ## Which addresses get a label -/

namespace LabelTable

variable {isa : Isa} {is : List Instruction}

/-- The addresses that get a label, in ascending order.  They are the same for every
prefix. -/
def labelled (isa : Isa) (is : List Instruction) : List Address :=
  (build isa is []).keys

/-- The prefix does not matter for which addresses get a label. -/
theorem keys_build (isa : Isa) (is : List Instruction) (stem : Text) :
    (build isa is stem).keys = labelled isa is := by
  apply List.Pairwise.eq_of_mem_iff (SortedMap.pairwise_keys _) (SortedMap.pairwise_keys _)
  intro a
  rw [mem_keys_build_iff, mem_keys_build_iff]

/-- Nor for how many there are. -/
theorem size_build (isa : Isa) (is : List Instruction) (stem : Text) :
    (build isa is stem).size = (labelled isa is).length := by
  rw [← SortedMap.length_keys, keys_build]

/-- The label at an address is named after the prefix. -/
theorem get?_build (stem : Text) (a : Address) :
    (build isa is stem).get? a =
      if a ∈ labelled isa is then some (labelName stem a) else none := by
  by_cases ha : a ∈ labelled isa is
  · obtain ⟨htarget, hhas⟩ := mem_keys_build_iff.1 ha
    rw [if_pos ha]
    exact get?_build_eq_some_iff.2 ⟨htarget, hhas, rfl⟩
  · rw [if_neg ha, Option.eq_none_iff_forall_ne_some]
    intro name hname
    obtain ⟨htarget, hhas, -⟩ := get?_build_eq_some_iff.1 hname
    exact ha (mem_keys_build_iff.2 ⟨htarget, hhas⟩)

end LabelTable

/-! ## The template of a listing -/

open LabelTable (labelled)

/-- The target of an instruction when it is among the addresses that get a label. -/
def Instruction.labelledTarget? (isa : Isa) (addresses : List Address) (i : Instruction) :
    Option Address :=
  (i.targetAddress? isa).filter (· ∈ addresses)

/-- The line of an instruction with a hole for the label at its target. -/
def Instruction.template (isa : Isa) (addresses : List Address) (i : Instruction) :
    TemplateLine :=
  match i.labelledTarget? isa addresses, lastOperand? i.operands with
  | some a, some cut =>
      ⟨[.fixed (i.lead ++ cut.before), .hole a,
        .fixed (cut.after ++ i.tail.drop i.operands.length)], false⟩
  | _, _ => .plain i.toText

/-- The lines of the instructions with holes, after instructions with given
addresses. -/
def codeTemplate (isa : Isa) (addresses : List Address) :
    List Address → List Instruction → Template
  | _, [] => []
  | earlier, i :: is =>
      (if i.address ∈ addresses ∧ i.address ∉ earlier then [.declaring i.address] else []) ++
        i.template isa addresses :: codeTemplate isa addresses (i.address :: earlier) is

/-- The labelled text of a listing with holes for the names. -/
def Listing.template (isa : Isa) (l : Listing) : Template :=
  l.header.map .plain ++ (bannerLines (labelled isa l.instructions).length).map .plain ++
    codeTemplate isa (labelled isa l.instructions) [] l.instructions ++ l.trailer.map .plain

/-! ## Filling in the names -/

section Fill

variable {isa : Isa} {is : List Instruction} (config : Config)

/-- The label of an instruction is named after the prefix. -/
theorem Instruction.label?_build (stem : Text) (i : Instruction) :
    i.label? isa (LabelTable.build isa is stem) =
      (i.labelledTarget? isa (labelled isa is)).map (labelName stem) := by
  unfold label? labelledTarget?
  cases i.targetAddress? isa with
  | none => rfl
  | some a =>
      rw [Option.bind_some, LabelTable.get?_build]
      by_cases ha : a ∈ labelled isa is
      · simp [Option.filter, ha]
      · simp [Option.filter, ha]

/-- The written line of an instruction is its template with the names filled in. -/
theorem Instruction.fill_template (i : Instruction) :
    (i.template isa (labelled isa is)).fill config =
      [(i.written isa (LabelTable.build isa is config.labelPrefix)).text] := by
  unfold template written
  rw [label?_build]
  cases i.labelledTarget? isa (labelled isa is) with
  | none => simp
  | some a =>
      cases lastOperand? i.operands with
      | none => simp
      | some cut => simp [TemplateLine.fill, Piece.fill, relabelled]

/-- The declaration before an instruction is its template with the name filled in. -/
theorem lines_declaring (earlier : List Address) (a : Address) :
    Template.lines config
        (if a ∈ labelled isa is ∧ a ∉ earlier then [.declaring a] else []) =
      declarationAt config (LabelTable.build isa is config.labelPrefix) earlier a := by
  unfold declarationAt
  rw [LabelTable.get?_build]
  by_cases ha : a ∈ labelled isa is
  · by_cases hearlier : a ∈ earlier
    · simp [ha, hearlier, Template.lines]
    · simp [ha, hearlier, Template.lines]
  · simp [ha, Template.lines]

/-- The lines of the instructions are their template with the names filled in. -/
theorem lines_codeTemplate (earlier : List Address) (js : List Instruction) :
    Template.lines config (codeTemplate isa (labelled isa is) earlier js) =
      (codePlan config (LabelTable.build isa is config.labelPrefix) earlier js).map
        (Line.written isa (LabelTable.build isa is config.labelPrefix)) := by
  induction js generalizing earlier with
  | nil => rfl
  | cons i js ih =>
      rw [codeTemplate, Template.lines_append, lines_declaring, Template.lines_cons,
        Instruction.fill_template, ih, codePlan, List.map_append, map_written_prose,
        List.map_cons, Line.written, List.singleton_append]

/-- The labelled text of a listing is its template with the names filled in. -/
theorem Listing.fill_template (isa : Isa) (l : Listing) :
    Template.fill config (l.template isa) = (Labelling.ofListing isa config l).text := by
  simp only [Template.fill, template, Labelling.ofListing, plan, Template.lines_append,
    Template.lines_map_plain, lines_codeTemplate, LabelTable.size_build, List.map_append,
    map_written_prose]

end Fill

namespace Labelling

/-- A configuration only names labels and sets them off.  A text is refused by all
accepted configurations with the same bad address, or it is labelled by all of them,
with the same listing and labels at the same addresses, and the labelled text of each
is one template, with each hole filled by the name of its address and an empty line
before each declaration when labels are set off. -/
theorem configuration_only_names_and_spaces (isa : Isa) (text : Text) :
    (∃ k token, ∀ config, Config.validate config = .ok () →
      ofText isa config text = .error (.badAddress k token)) ∨
    ∃ (l : Listing) (addresses : List Address) (template : Template),
      ∀ config, Config.validate config = .ok () →
        ∃ p, ofText isa config text = .ok p ∧ p.listing = l ∧
          p.labels.entries = addresses.map (fun a => (a, labelName config.labelPrefix a)) ∧
          p.text = Template.fill config template := by
  cases hlisting : Listing.ofText text with
  | error e =>
      obtain ⟨k, token, hfirst, rfl⟩ := Listing.ofText_eq_error_iff.1 hlisting
      refine .inl ⟨k, token, ?_⟩
      intro config hvalid
      exact ofText_eq_error_iff.2
        (.inr ⟨Config.validate_eq_ok_iff.1 hvalid, k, token, hfirst, rfl⟩)
  | ok l =>
      refine .inr ⟨l, labelled isa l.instructions, l.template isa, ?_⟩
      intro config hvalid
      refine ⟨ofListing isa config l,
        ofText_eq_ok_iff.2 ⟨Config.validate_eq_ok_iff.1 hvalid, l, hlisting, rfl⟩, rfl, ?_,
        (Listing.fill_template config isa l).symm⟩
      rw [← LabelTable.keys_build isa l.instructions config.labelPrefix]
      exact LabelTable.entries_build isa l.instructions config.labelPrefix

/-- Two configurations of the same text, with other names and other spaces. -/
theorem configuration_only_names_and_spaces_sample :
    ∃ p p' template, ofText .rv32 .standard sampleText = .ok p ∧
      ofText .rv32 ⟨"L".toList, false⟩ sampleText = .ok p' ∧ p'.listing = p.listing ∧
      p'.labels.keys = p.labels.keys ∧ p.text = Template.fill .standard template ∧
      p'.text = Template.fill ⟨"L".toList, false⟩ template ∧ p.labels.size = 2 := by
  have hstandard : Config.validate .standard = .ok () := by decide
  have hother : Config.validate ⟨"L".toList, false⟩ = .ok () := by decide
  obtain ⟨p₀, hp₀⟩ := exists_ofText_sampleText
  rcases configuration_only_names_and_spaces .rv32 sampleText with
    ⟨k, token, hrefused⟩ | ⟨l, addresses, template, hlabelled⟩
  · exact absurd (hp₀.symm.trans (hrefused .standard hstandard)) (by simp)
  · obtain ⟨p, hp, hlisting, hentries, htext⟩ := hlabelled .standard hstandard
    obtain ⟨p', hp', hlisting', hentries', htext'⟩ := hlabelled ⟨"L".toList, false⟩ hother
    refine ⟨p, p', template, hp, hp', hlisting'.trans hlisting.symm, ?_, htext, htext', ?_⟩
    · rw [SortedMap.keys, SortedMap.keys, hentries, hentries', List.map_map, List.map_map]
      rfl
    · obtain rfl := Except.ok.inj hp
      decide +kernel

end Labelling

end BranchLabels
