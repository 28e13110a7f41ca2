import BranchLabels.Proofs.Export
import BranchLabels.Proofs.Saving
import BranchLabels.Proofs.SortedMap

/-!
# What a successful run leaves

All files of a successful run come from one labelling, that of the input as it was before
the run: the labelled text, the labels and the report.  When their paths name different
files, each of them is complete at the end, and the labels can be read back from both
exports.  Nothing else is touched but directories above these files.

Main results:

- Theorem `read_of_exportAll`: all exports can be read at the end.
- Theorem `savesOnly_exportAll`: exports touch their files alone.
- Theorem `exists_labelling_of_run`: the steps of a successful run.
- Theorem `successful_run_is_consistent`: what a successful run leaves.
-/

namespace BranchLabels

namespace LabelEntry

/-- A list has the labels of a table, each of them once and in the order of their
addresses. -/
structure Lists (labels : LabelTable) (es : List LabelEntry) : Prop where
  mem_iff : ∀ e, e ∈ es ↔ labels.get? e.addr = some e.name
  ascending : es.Pairwise fun e e' => e.addr < e'.addr

theorem lists_ofTable (labels : LabelTable) : Lists labels (ofTable labels) := by
  refine ⟨?_, ?_⟩
  · rintro ⟨addr, name⟩
    rw [← SortedMap.mem_entries_iff, ofTable, List.mem_map]
    constructor
    · rintro ⟨entry, hentry, heq⟩
      obtain ⟨rfl, rfl⟩ := LabelEntry.mk.inj heq
      exact hentry
    · intro hentry
      exact ⟨_, hentry, rfl⟩
  · exact List.pairwise_map.2 labels.ascending

theorem length_ofTable (labels : LabelTable) : (ofTable labels).length = labels.size :=
  List.length_map _

end LabelEntry

/-- The paths that a run writes to. -/
def Arguments.outputs (args : Arguments) : List Text :=
  args.output :: (args.labelsOut.toList ++ args.report.toList)

theorem Labelling.map_fst_exports (p : Labelling) (args : Arguments) :
    (p.exports args).map (·.1) = args.labelsOut.toList ++ args.report.toList := by
  rw [Labelling.exports, List.map_append]
  congr 1
  · cases args.labelsOut with
    | none => rfl
    | some path => rfl
  · cases args.report with
    | none => rfl
    | some path => rfl

namespace Store

variable {s t : Store} {args : Arguments}

/-! ## Exports -/

theorem sameFile_comm {path path' : Text} : s.SameFile path path' ↔ s.SameFile path' path := by
  constructor
  · rintro ⟨l, hpath, hpath'⟩
    exact ⟨l, hpath', hpath⟩
  · rintro ⟨l, hpath', hpath⟩
    exact ⟨l, hpath, hpath'⟩

theorem sameFile_iff {path path' : Text} :
    s.SameFile path path' ↔
      (s.fileAt? path).isSome = true ∧ s.fileAt? path' = s.fileAt? path := by
  rw [Option.isSome_iff_exists]
  constructor
  · rintro ⟨l, hpath, hpath'⟩
    exact ⟨⟨l, hpath⟩, hpath'.trans hpath.symm⟩
  · rintro ⟨⟨l, hpath⟩, heq⟩
    exact ⟨l, hpath, heq.trans hpath⟩

instance (s : Store) (path path' : Text) : Decidable (s.SameFile path path') :=
  decidable_of_iff _ sameFile_iff.symm

/-- The files at some paths are pairwise different. -/
def Distinct (s : Store) (paths : List Text) : Prop :=
  paths.Pairwise fun path path' => ¬ s.SameFile path path'

instance (s : Store) (paths : List Text) : Decidable (s.Distinct paths) :=
  inferInstanceAs (Decidable (List.Pairwise _ paths))

theorem distinct_congr (h : t.current = s.current) (paths : List Text) :
    t.Distinct paths ↔ s.Distinct paths := by
  simp only [Distinct, sameFile_congr h]

/-- All values that were exported to different files can be read at the end. -/
theorem read_of_exportAll {items : List (Text × Json)} (h : exportAll items s = (.ok (), t))
    (hdistinct : s.Distinct (items.map (·.1))) {path : Text} {v : Json}
    (hitem : (path, v) ∈ items) : t.read path = .ok (Utf8.encode v.indented) := by
  induction items generalizing s with
  | nil => contradiction
  | cons head items ih =>
      obtain ⟨path', v'⟩ := head
      obtain ⟨hhead, htail⟩ := List.pairwise_cons.1 hdistinct
      rw [exportAll] at h
      split at h
      · next saved hsave =>
        have hcurrent := current_save hsave
        rcases List.mem_cons.1 hitem with heq | hitem
        · obtain ⟨rfl, rfl⟩ := Prod.mk.inj heq
          refine read_exportAll (read_of_save hsave) h ?_
          intro item hmem
          rw [sameFile_congr hcurrent, sameFile_comm]
          exact hhead item.1 (List.mem_map_of_mem hmem)
        · exact ih h ((distinct_congr hcurrent _).2 htail) hitem
      · cases h

/-- Exports touch their files and the directories above them alone. -/
theorem savesOnly_exportAll {items : List (Text × Json)} {result : Except RunError Unit}
    (h : exportAll items s = (result, t)) : SavesOnly (items.map (·.1)) s t := by
  induction items generalizing s with
  | nil =>
      cases h
      exact .refl _ _
  | cons head items ih =>
      obtain ⟨path, v⟩ := head
      have hfirst : [path] ⊆ path :: items.map (·.1) := by simp
      rw [exportAll] at h
      split at h
      · next saved hsave =>
        have hothers := (ih h).mono (List.subset_cons_self path _)
        exact ((savesOnly_save hsave).mono hfirst).trans hothers
      · next fault saved hsave =>
        cases h
        exact (savesOnly_save hsave).mono hfirst

/-! ## Successful runs -/

/-- A successful run labels its input, saves the result and exports all that is asked
for. -/
theorem exists_labelling_of_run {n : Nat} (h : s.exec (run args) = (.ok n, t)) :
    ∃ content p saved, s.read args.input = .ok content ∧
      Labelling.ofText .rv32 args.config (Utf8.decode content) = .ok p ∧
      s.save args.output (Utf8.encode p.text) = (.ok (), saved) ∧
      exportAll (p.exports args) saved = (.ok (), t) ∧ n = p.labels.size := by
  rw [exec_run] at h
  split at h
  · cases h
  · next content hread =>
    split at h
    · cases h
    · next p hp =>
      split at h
      · cases h
      · next saved hsave =>
        split at h
        · cases h
        · next hexport =>
          cases h
          exact ⟨content, p, saved, hread, hp, hsave, hexport, rfl⟩

/-- The files of a successful run and all else in the store, where `es` are the labels. -/
structure Consistent (args : Arguments) (s t : Store) (p : Labelling) (es : List LabelEntry) :
    Prop where
  /-- The output is the labelled text. -/
  output : t.read args.output = .ok (Utf8.encode p.text)
  /-- The labels are written as an indented list, and that list is read back. -/
  labels : ∀ path, args.labelsOut = some path →
    ∃ bytes, t.read path = .ok bytes ∧ bytes = Utf8.encode (LabelEntry.listToJson es).indented ∧
      LabelEntry.listOfJsonText? (Utf8.decode bytes) = some es
  /-- The report is written as an indented record, from whose field the same list is read
  back. -/
  report : ∀ path, args.report = some path →
    ∃ bytes v labels, t.read path = .ok bytes ∧ bytes = Utf8.encode v.indented ∧
      v = (Report.ofLabelling .rv32 p).toJson ∧ Json.read? (Utf8.decode bytes) = some v ∧
      v.fields? ["labels"] = some [some labels] ∧ LabelEntry.listOfJson? labels = some es
  /-- Only these files and directories above them are touched. -/
  savesOnly : SavesOnly args.outputs s t
  /-- All other files stay as they are. -/
  other_files : ∀ l, (∀ path ∈ args.outputs, s.fileAt? path ≠ some l) →
    ∀ content, t.get? l = some (.file content) ↔ s.get? l = some (.file content)
  /-- No file is removed. -/
  keeps_files : ∀ l content, s.get? l = some (.file content) →
    ∃ content', t.get? l = some (.file content')
  /-- No directory is removed. -/
  keeps_directories : ∀ l, s.get? l = some .directory → t.get? l = some .directory

/-- The files that are exported after the output was saved leave it as it is. -/
theorem read_output_of_run {p : Labelling} {saved : Store} (hdistinct : s.Distinct args.outputs)
    (hsave : s.save args.output (Utf8.encode p.text) = (.ok (), saved))
    (hexport : exportAll (p.exports args) saved = (.ok (), t)) :
    t.read args.output = .ok (Utf8.encode p.text) := by
  refine read_exportAll (read_of_save hsave) hexport ?_
  intro item hitem
  have hmem : item.1 ∈ args.labelsOut.toList ++ args.report.toList := by
    rw [← p.map_fst_exports args]
    exact List.mem_map_of_mem hitem
  rw [sameFile_congr (current_save hsave), sameFile_comm]
  exact (List.pairwise_cons.1 hdistinct).1 item.1 hmem

/-- A successful run leaves files that agree with each other, and touches nothing else. -/
theorem successful_run_is_consistent {n : Nat} (h : s.exec (run args) = (.ok n, t))
    (hdistinct : s.Distinct args.outputs) :
    ∃ content p es, s.read args.input = .ok content ∧
      Labelling.ofText .rv32 args.config (Utf8.decode content) = .ok p ∧
      LabelEntry.Lists p.labels es ∧ es.length = n ∧ n = p.labels.size ∧
      Consistent args s t p es := by
  obtain ⟨content, p, saved, hread, hp, hsave, hexport, rfl⟩ := exists_labelling_of_run h
  have hsaves : SavesOnly args.outputs s t := by
    have hfirst : [args.output] ⊆ args.outputs := by simp [Arguments.outputs]
    have hothers := savesOnly_exportAll hexport
    rw [p.map_fst_exports args] at hothers
    exact ((savesOnly_save hsave).mono hfirst).trans
      (hothers.mono (List.subset_cons_self _ _))
  have hexports : saved.Distinct ((p.exports args).map (·.1)) := by
    rw [p.map_fst_exports args, distinct_congr (current_save hsave)]
    exact (List.pairwise_cons.1 hdistinct).2
  refine ⟨content, p, LabelEntry.ofTable p.labels, hread, hp, LabelEntry.lists_ofTable p.labels,
    LabelEntry.length_ofTable p.labels, rfl, ?_, ?_, ?_, hsaves, ?_, ?_, ?_⟩
  · exact read_output_of_run hdistinct hsave hexport
  · intro path hpath
    have hitem : (path, LabelEntry.listToJson (LabelEntry.ofTable p.labels)) ∈ p.exports args := by
      simp [Labelling.exports, hpath]
    refine ⟨_, read_of_exportAll hexport hexports hitem, rfl, ?_⟩
    rw [Utf8.decode_encode, LabelEntry.listOfJsonText?_indented]
  · intro path hpath
    have hitem : (path, (Report.ofLabelling .rv32 p).toJson) ∈ p.exports args := by
      simp [Labelling.exports, hpath]
    refine ⟨_, _, LabelEntry.listToJson (LabelEntry.ofTable p.labels),
      read_of_exportAll hexport hexports hitem, rfl, rfl, ?_, rfl, ?_⟩
    · rw [Utf8.decode_encode, Report.read?_toJson]
    · exact LabelEntry.listOfJson?_listToJson _
  · exact fun l hother content => hsaves.get?_file_iff hother content
  · exact fun l content hl => hsaves.get?_file hl
  · exact fun l hl => hsaves.get?_directory hl

/-- The output takes the place of the input. -/
def overwritingArguments : Arguments where
  input := "in".toList
  output := "./in".toList
  labelsOut := some "new/labels".toList
  report := some "new/report".toList

theorem successful_run_is_consistent_sample :
    ∃ p es t, Labelling.ofText .rv32 .standard Labelling.sampleText = .ok p ∧
      sampleStore.exec (run overwritingArguments) = (.ok 2, t) ∧ es.length = 2 ∧
      Consistent overwritingArguments sampleStore t p es := by
  have hinput : sampleStore.read overwritingArguments.input =
      .ok (Utf8.encode Labelling.sampleText) := by decide +kernel
  have hok : (sampleStore.exec (run overwritingArguments)).1 = .ok 2 := by decide +kernel
  have hdistinct : sampleStore.Distinct overwritingArguments.outputs := by decide +kernel
  have hrun := Prod.ext hok rfl
  obtain ⟨content, p, es, hread, hp, -, hlength, -, hconsistent⟩ :=
    successful_run_is_consistent hrun hdistinct
  obtain rfl := Except.ok.inj (hinput.symm.trans hread)
  rw [Utf8.decode_encode] at hp
  exact ⟨p, es, _, hp, hrun, hlength, hconsistent⟩

end Store

end BranchLabels
