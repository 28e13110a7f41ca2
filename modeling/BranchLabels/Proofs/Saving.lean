import BranchLabels.Proofs.Run
import BranchLabels.Proofs.Text.Utf8

/-!
# What saving changes

Saving puts one file in its place and makes directories above it where nothing was, and
does nothing else.  What several files leave that are saved one after another follows from
what each of them leaves.  As the octets of a text are read as that text, a listing that
was written is read back.

Main results:

- Theorem `savesOnly_save`: saving touches the file and the directories above it alone.
- Theorem `SavesOnly.trans`: so do several files that are saved one after another.
- Theorem `SavesOnly.get?_file_iff`: all other files stay as they are.
- Theorem `written_listing_reads_back`: a listing that was written is read back.
-/

namespace BranchLabels

namespace Store

variable {s t u : Store} {path : Text} {paths paths' : List Text} {l : Location}

/-! ## Changes -/

/-- What may have happened at a location when files were saved at some paths. -/
inductive Change (paths : List Text) (s t : Store) (l : Location) : Prop where
  /-- Nothing has changed. -/
  | kept (heq : t.get? l = s.get? l)
  /-- A directory above one of the files was made where nothing was. -/
  | made (hnone : s.get? l = none) (hdirectory : t.get? l = some .directory)
      (habove : ∃ path ∈ paths, ∃ outer ∈ Path.above path, s.destination outer = l)
  /-- One of the files was written, and not over a directory. -/
  | written (hnot : s.get? l ≠ some .directory) (hfile : ∃ bytes, t.get? l = some (.file bytes))
      (hpath : ∃ path ∈ paths, s.fileAt? path = some l)

/-- The only differences between two stores are files at some paths and directories above
them. -/
structure SavesOnly (paths : List Text) (s t : Store) : Prop where
  current_eq : t.current = s.current
  change : ∀ l, Change paths s t l

namespace SavesOnly

theorem refl (paths : List Text) (s : Store) : SavesOnly paths s s :=
  ⟨rfl, fun _ => .kept rfl⟩

theorem mono (h : SavesOnly paths s t) (hsub : paths ⊆ paths') : SavesOnly paths' s t := by
  refine ⟨h.current_eq, ?_⟩
  intro l
  cases h.change l with
  | kept heq => exact .kept heq
  | made hnone hdirectory habove =>
      obtain ⟨path, hpath, hl⟩ := habove
      exact .made hnone hdirectory ⟨path, hsub hpath, hl⟩
  | written hnot hfile hpath =>
      obtain ⟨path, hpath, hl⟩ := hpath
      exact .written hnot hfile ⟨path, hsub hpath, hl⟩

/-- What is saved first and what is saved then make up what is saved. -/
theorem trans (hst : SavesOnly paths s t) (htu : SavesOnly paths t u) : SavesOnly paths s u := by
  refine ⟨htu.current_eq.trans hst.current_eq, ?_⟩
  intro l
  -- the later change decides, and the earlier one tells what stood there at first
  cases htu.change l with
  | kept heq =>
      cases hst.change l with
      | kept heq' => exact .kept (heq.trans heq')
      | made hnone hdirectory habove => exact .made hnone (heq ▸ hdirectory) habove
      | written hnot hfile hpath => exact .written hnot (heq ▸ hfile) hpath
  | made hnone hdirectory habove =>
      obtain ⟨path, hpath, outer, houter, hl⟩ := habove
      rw [destination_congr hst.current_eq] at hl
      cases hst.change l with
      | kept heq => exact .made (heq ▸ hnone) hdirectory ⟨path, hpath, outer, houter, hl⟩
      | made _ hdirectory' _ =>
          rw [hdirectory'] at hnone
          contradiction
      | written _ hfile _ =>
          obtain ⟨bytes, hbytes⟩ := hfile
          rw [hbytes] at hnone
          contradiction
  | written hnot hfile hpath =>
      obtain ⟨path, hpath, hl⟩ := hpath
      rw [fileAt?_congr hst.current_eq] at hl
      cases hst.change l with
      | kept heq => exact .written (heq ▸ hnot) hfile ⟨path, hpath, hl⟩
      | made _ hdirectory' _ => exact absurd hdirectory' hnot
      | written hnot' _ _ => exact .written hnot' hfile ⟨path, hpath, hl⟩

/-- Directories stay directories. -/
theorem get?_directory (h : SavesOnly paths s t) (hl : s.get? l = some .directory) :
    t.get? l = some .directory := by
  cases h.change l with
  | kept heq => exact heq.trans hl
  | made _ hdirectory _ => exact hdirectory
  | written hnot _ _ => exact absurd hl hnot

/-- Files stay files. -/
theorem get?_file (h : SavesOnly paths s t) {content : List UInt8}
    (hl : s.get? l = some (.file content)) : ∃ content', t.get? l = some (.file content') := by
  cases h.change l with
  | kept heq => exact ⟨content, heq.trans hl⟩
  | made hnone _ _ =>
      rw [hnone] at hl
      contradiction
  | written _ hfile _ => exact hfile

/-- All files but those that were saved stay as they are, and there are no new ones. -/
theorem get?_file_iff (h : SavesOnly paths s t)
    (hother : ∀ path ∈ paths, s.fileAt? path ≠ some l) (content : List UInt8) :
    t.get? l = some (.file content) ↔ s.get? l = some (.file content) := by
  cases h.change l with
  | kept heq => rw [heq]
  | made hnone hdirectory _ => simp [hnone, hdirectory]
  | written _ _ hpath =>
      obtain ⟨path, hpath, hl⟩ := hpath
      exact absurd hl (hother path hpath)

end SavesOnly

/-! ## Saving -/

theorem AddsDirectories.savesOnly (h : AddsDirectories (Path.above path) s t) :
    SavesOnly [path] s t := by
  refine ⟨h.current_eq, ?_⟩
  intro l
  rcases h.get?_eq l with heq | ⟨hnone, hdirectory, outer, houter, hl⟩
  · exact .kept heq
  · exact .made hnone hdirectory ⟨path, List.mem_singleton_self path, outer, houter, hl⟩

/-- Writing a file touches that file alone. -/
theorem savesOnly_of_write {bytes : List UInt8} (h : s.write path bytes = .ok t) :
    SavesOnly [path] s t := by
  obtain ⟨here, name, hlocate, -, hnot, rfl⟩ := exists_put_of_write h
  refine ⟨rfl, ?_⟩
  intro l
  by_cases hl : l = name :: here
  · subst hl
    refine .written hnot ⟨bytes, ?_⟩ ⟨path, List.mem_singleton_self path, fileAt?_of_locate hlocate⟩
    rw [get?_put, if_pos rfl]
  · exact .kept (by rw [get?_put, if_neg hl])

/-- Saving touches the file and the directories above it alone, whether it succeeds or
not. -/
theorem savesOnly_save {bytes : List UInt8} {result : Except Fault Unit}
    (h : s.save path bytes = (result, u)) : SavesOnly [path] s u := by
  rcases save_cases h with ⟨_, -, hadds⟩ | ⟨-, t, hadds, hwrite⟩
  · exact hadds.savesOnly
  · exact hadds.savesOnly.trans (savesOnly_of_write hwrite)

/-- A saved file stands where its path leads. -/
theorem exists_fileAt?_of_save {bytes : List UInt8} (h : s.save path bytes = (.ok (), u)) :
    ∃ l, s.fileAt? path = some l ∧ u.get? l = some (.file bytes) := by
  obtain ⟨here, name, hlocate, -, hget⟩ := read_eq_ok_iff.1 (read_of_save h)
  refine ⟨name :: here, ?_, hget⟩
  rw [← fileAt?_congr (current_save h)]
  exact fileAt?_of_locate hlocate

/-! ## Listings in files -/

/-- Exactly a saved file is a written listing. -/
theorem exec_writeListing_eq_ok_iff {text : Text} :
    s.exec (writeListing path text) = (.ok (), t) ↔
      s.save path (Utf8.encode text) = (.ok (), t) := by
  rw [exec_writeListing]
  rcases s.save path (Utf8.encode text) with ⟨_ | _, u⟩
  · simp
  · simp

/-- A listing that was written is read back.  No other file has changed and no directory
is gone. -/
theorem written_listing_reads_back {text : Text}
    (h : s.exec (writeListing path text) = (.ok (), t)) :
    t.exec (readListing path) = (.ok text, t) ∧
      (∃ file, s.fileAt? path = some file ∧ t.get? file = some (.file (Utf8.encode text)) ∧
        ∀ l ≠ file, ∀ content,
          t.get? l = some (.file content) ↔ s.get? l = some (.file content)) ∧
      (∀ l, s.get? l = some .directory → t.get? l = some .directory) ∧
      ∀ any : Text, Utf8.decode (Utf8.encode any) = any := by
  have hsave := exec_writeListing_eq_ok_iff.1 h
  have hsaves := savesOnly_save hsave
  obtain ⟨file, hfile, hcontent⟩ := exists_fileAt?_of_save hsave
  refine ⟨?_, ⟨file, hfile, hcontent, ?_⟩, ?_, Utf8.decode_encode⟩
  · rw [exec_readListing, read_of_save hsave]
    dsimp only
    rw [Utf8.decode_encode]
  · intro l hl content
    refine hsaves.get?_file_iff ?_ content
    intro path' hpath'
    rw [List.mem_singleton.1 hpath', hfile]
    exact fun heq => hl (Option.some.inj heq).symm
  · intro l hl
    exact hsaves.get?_directory hl

/-- The text has characters of one to four octets, and the directory is made on the
way. -/
theorem written_listing_reads_back_sample :
    ∃ t, sampleStore.exec (writeListing "new/./out".toList "aé€😀\r\n".toList) = (.ok (), t) ∧
      t.exec (readListing "new/./out".toList) = (.ok "aé€😀\r\n".toList, t) ∧
      t.get? ("in".toList :: fresh.current) =
        some (.file (Utf8.encode Labelling.sampleText)) := by
  have hok : (sampleStore.exec (writeListing "new/./out".toList "aé€😀\r\n".toList)).1 =
      .ok () := by decide +kernel
  have hwrite := Prod.ext hok rfl
  obtain ⟨hread, ⟨file, hfile, -, hother⟩, -, -⟩ := written_listing_reads_back hwrite
  have hne : "in".toList :: fresh.current ≠ file := by
    rintro rfl
    exact absurd hfile (by decide +kernel)
  refine ⟨_, hwrite, hread, (hother _ hne _).2 ?_⟩
  exact get?_put _ _ _ _

end Store

end BranchLabels
