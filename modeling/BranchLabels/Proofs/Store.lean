import BranchLabels.Store.Basic

/-!
# What operations do to a store

A path leads to one location, whatever stands there: directories that are made on the
way do not change where it leads.  Making directories adds directories where nothing
was, and writing a file changes nothing but that file.  So a file stays as it is
through all operations on other files, whether they succeed or fail.

Main results:

- Theorem `locate_eq_named_iff`: when a path leads to a name in a directory.
- Theorem `locate_of_keepsDirectories`: a path leads to the same place as long as all
  directories stay.
- Theorem `addsDirectories_ensureDirectories`: making directories only adds them.
- Theorem `save_cases`: saving a file adds directories above it and then writes it, if
  it can be saved at all.
- Theorem `read_of_save`: a saved file can be read.
- Theorem `read_save`: a file stays as it is when another one is saved or cannot be
  saved.
-/

namespace BranchLabels

namespace Store

variable {s t u : Store} {path : Text} {here there : Location} {name : Text} {slash : Bool}

/-! ## Where paths lead -/

/-- Where a piece of a path leads from a location. -/
def follow (here : Location) (piece : Text) : Location :=
  if piece = ".".toList then here
  else if piece = "..".toList then here.tail
  else piece :: here

/-- Where the way of a path starts. -/
def start (s : Store) (path : Text) : Location :=
  if Path.isAbsolute path then [] else s.current

/-- The location that a path leads to, whatever stands there. -/
def destination (s : Store) (path : Text) : Location :=
  (Path.pieces path).foldl follow (s.start path)

/-- The location of the file that a path names.  A path that ends in a slash, `.` or
`..` names no file. -/
def fileAt? (s : Store) (path : Text) : Option Location :=
  match (Path.pieces path).getLast? with
  | none => none
  | some last =>
      if last = ".".toList ∨ last = "..".toList ∨ Path.endsInSlash path then none
      else some (s.destination path)

/-- Two paths name the same file. -/
def SameFile (s : Store) (path path' : Text) : Prop :=
  ∃ l, s.fileAt? path = some l ∧ s.fileAt? path' = some l

/-- A name that is not too long is looked up in its directory. -/
theorem child?_eq_ok_iff {found : Option Entry} :
    s.child? here name = .ok found ↔
      Text.byteLength name ≤ maxNameLength ∧ s.get? (name :: here) = found := by
  unfold child?
  split
  · next hlong => simp [Nat.not_le.2 hlong]
  · next hlong => simp [Nat.not_lt.1 hlong]

/-- Going from a directory to another one follows the piece, which names a directory
unless it is `.` or `..`. -/
theorem enter_eq_ok_iff {piece : Text} :
    s.enter here piece = .ok there ↔
      follow here piece = there ∧ (piece = ".".toList ∨ piece = "..".toList ∨
        s.child? here piece = .ok (some .directory)) := by
  unfold enter follow
  by_cases hdot : piece = ".".toList
  · rw [if_pos hdot, if_pos hdot, Except.ok.injEq]
    exact (and_iff_left (.inl hdot)).symm
  · rw [if_neg hdot, if_neg hdot]
    by_cases hdots : piece = "..".toList
    · rw [if_pos hdots, if_pos hdots, Except.ok.injEq]
      exact (and_iff_left (.inr (.inl hdots))).symm
    · rw [if_neg hdots, if_neg hdots, or_iff_right hdot, or_iff_right hdots]
      split
      · next hchild => simp [hchild]
      · next hchild => simp [hchild]
      · next hchild => simp [hchild]
      · next hchild => simp [hchild]

/-- A walk follows the pieces. -/
theorem foldl_follow_of_walk {pieces : List Text} (h : s.walk here pieces = .ok there) :
    pieces.foldl follow here = there := by
  induction pieces generalizing here with
  | nil => exact Except.ok.inj h
  | cons piece pieces ih =>
      rw [walk] at h
      split at h
      · next hence henter => rw [List.foldl_cons, (enter_eq_ok_iff.1 henter).1, ih h]
      · contradiction

/-- A last piece names something in a directory unless it is `.` or `..`. -/
theorem lastPlace_eq_named_iff {piece : Text} {slash' : Bool} :
    lastPlace here piece slash' = .named there name slash ↔
      here = there ∧ piece = name ∧ slash' = slash ∧
        ¬ (piece = ".".toList ∨ piece = "..".toList) := by
  unfold lastPlace
  split
  · next hdots =>
    constructor
    · intro h
      contradiction
    · rintro ⟨-, -, -, hnot⟩
      exact absurd hdots hnot
  · next hdots => simp only [Place.named.injEq, hdots, not_false_eq_true, and_true]

/-- A path leads to a name in a directory when it has no NUL and is not too long, its
last piece is that name, and the pieces before it lead to that directory. -/
theorem locate_eq_named_iff :
    s.locate path = .ok (.named here name slash) ↔
      '\x00' ∉ path ∧ Text.byteLength path ≤ maxPathLength ∧ path ≠ [] ∧
        (Path.pieces path).getLast? = some name ∧
        s.walk (s.start path) (Path.pieces path).dropLast = .ok here ∧
        ¬ (name = ".".toList ∨ name = "..".toList) ∧ Path.endsInSlash path = slash := by
  unfold locate start
  split
  · next hnul => simp [hnul]
  · next hnul =>
    split
    · next hlong => simp [Nat.not_le.2 hlong]
    · next hlong =>
      split
      · next hempty => simp [hempty]
      · next hempty =>
        split
        · next hlast => simp [hlast]
        · next last hlast =>
          simp only [hlast, Option.some.injEq]
          split
          · next there hwalk =>
            simp only [Except.ok.injEq, lastPlace_eq_named_iff, hwalk]
            constructor
            · rintro ⟨rfl, rfl, rfl, hdots⟩
              exact ⟨hnul, Nat.not_lt.1 hlong, hempty, rfl, rfl, hdots, rfl⟩
            · rintro ⟨-, -, -, rfl, rfl, hdots, rfl⟩
              exact ⟨rfl, rfl, rfl, hdots⟩
          · next e hwalk => simp [hwalk]

/-- A name in a directory stands where the path leads. -/
theorem destination_of_locate (h : s.locate path = .ok (.named here name slash)) :
    s.destination path = name :: here := by
  obtain ⟨-, -, -, hlast, hwalk, hdots, -⟩ := locate_eq_named_iff.1 h
  obtain ⟨hdot, hdots⟩ := not_or.1 hdots
  obtain ⟨pieces, hpieces⟩ := List.getLast?_eq_some_iff.1 hlast
  rw [hpieces, List.dropLast_concat] at hwalk
  rw [destination, hpieces, List.foldl_append, foldl_follow_of_walk hwalk, List.foldl_cons,
    List.foldl_nil, follow, if_neg hdot, if_neg hdots]

/-- A name in a directory is the file that the path names, if no slash follows. -/
theorem fileAt?_of_locate (h : s.locate path = .ok (.named here name false)) :
    s.fileAt? path = some (name :: here) := by
  obtain ⟨-, -, -, hlast, -, hdots, hslash⟩ := locate_eq_named_iff.1 h
  have hnone : ¬ (name = ".".toList ∨ name = "..".toList ∨ Path.endsInSlash path = true) := by
    rw [← or_assoc, hslash]
    exact fun hor => hor.elim hdots Bool.false_ne_true
  rw [fileAt?, hlast]
  exact (if_neg hnone).trans (congrArg some (destination_of_locate h))

/-- Where a path leads depends on the current directory alone. -/
theorem destination_congr (h : t.current = s.current) (path : Text) :
    t.destination path = s.destination path := by
  rw [destination, destination, start, start, h]

/-- So does which file it names. -/
theorem fileAt?_congr (h : t.current = s.current) (path : Text) :
    t.fileAt? path = s.fileAt? path := by
  rw [fileAt?, fileAt?, destination_congr h]

/-! ## Directories that stay -/

/-- All directories of a store are directories of another one. -/
structure KeepsDirectories (s t : Store) : Prop where
  current_eq : t.current = s.current
  get?_directory : ∀ l, s.get? l = some .directory → t.get? l = some .directory

/-- A directory that stays can be entered. -/
theorem enter_of_keepsDirectories (h : s.KeepsDirectories t) {piece : Text}
    (henter : s.enter here piece = .ok there) : t.enter here piece = .ok there := by
  obtain ⟨hfollow, hdot | hdots | hchild⟩ := enter_eq_ok_iff.1 henter
  · exact enter_eq_ok_iff.2 ⟨hfollow, .inl hdot⟩
  · exact enter_eq_ok_iff.2 ⟨hfollow, .inr (.inl hdots)⟩
  · obtain ⟨hlong, hget⟩ := child?_eq_ok_iff.1 hchild
    have hstays : t.child? here piece = .ok (some .directory) :=
      child?_eq_ok_iff.2 ⟨hlong, h.get?_directory _ hget⟩
    exact enter_eq_ok_iff.2 ⟨hfollow, .inr (.inr hstays)⟩

/-- A walk through directories that stay leads to the same place. -/
theorem walk_of_keepsDirectories (h : s.KeepsDirectories t) {pieces : List Text}
    (hwalk : s.walk here pieces = .ok there) : t.walk here pieces = .ok there := by
  induction pieces generalizing here with
  | nil => exact hwalk
  | cons piece pieces ih =>
      rw [walk] at hwalk ⊢
      split at hwalk
      · next hence henter =>
        rw [enter_of_keepsDirectories h henter]
        exact ih hwalk
      · contradiction

/-- A path leads to the same name as long as all directories stay. -/
theorem locate_of_keepsDirectories (h : s.KeepsDirectories t)
    (hlocate : s.locate path = .ok (.named here name slash)) :
    t.locate path = .ok (.named here name slash) := by
  obtain ⟨hnul, hlong, hempty, hlast, hwalk, hdots⟩ := locate_eq_named_iff.1 hlocate
  have hstart : t.start path = s.start path := by rw [start, start, h.current_eq]
  exact locate_eq_named_iff.2
    ⟨hnul, hlong, hempty, hlast, hstart ▸ walk_of_keepsDirectories h hwalk, hdots⟩

/-! ## Directories that are added -/

/-- The only difference between two stores is that some paths lead to directories
where nothing was. -/
structure AddsDirectories (paths : List Text) (s t : Store) : Prop where
  current_eq : t.current = s.current
  get?_eq : ∀ l, t.get? l = s.get? l ∨
    s.get? l = none ∧ t.get? l = some .directory ∧ ∃ path ∈ paths, s.destination path = l

namespace AddsDirectories

variable {paths paths' : List Text}

theorem refl (paths : List Text) (s : Store) : AddsDirectories paths s s :=
  ⟨rfl, fun _ => .inl rfl⟩

theorem mono (h : AddsDirectories paths s t) (hsub : paths ⊆ paths') :
    AddsDirectories paths' s t := by
  refine ⟨h.current_eq, ?_⟩
  intro l
  rcases h.get?_eq l with hl | ⟨hnone, hdirectory, path, hpath, hl⟩
  · exact .inl hl
  · exact .inr ⟨hnone, hdirectory, path, hsub hpath, hl⟩

theorem trans (hst : AddsDirectories paths s t) (htu : AddsDirectories paths t u) :
    AddsDirectories paths s u := by
  refine ⟨htu.current_eq.trans hst.current_eq, ?_⟩
  intro l
  rcases htu.get?_eq l with hu | ⟨hnone, hu, path, hpath, hl⟩
  · rw [hu]
    exact hst.get?_eq l
  · rcases hst.get?_eq l with ht | ⟨-, ht, -⟩
    · exact .inr ⟨ht ▸ hnone, hu, path, hpath, destination_congr hst.current_eq path ▸ hl⟩
    · rw [ht] at hnone
      contradiction

/-- Added directories leave all directories where they are. -/
theorem keepsDirectories (h : AddsDirectories paths s t) : s.KeepsDirectories t := by
  refine ⟨h.current_eq, ?_⟩
  intro l hl
  rcases h.get?_eq l with heq | ⟨-, hdirectory, -⟩
  · rw [heq, hl]
  · exact hdirectory

/-- Added directories leave all files as they are. -/
theorem get?_file_iff (h : AddsDirectories paths s t) (l : Location) (bytes : List UInt8) :
    t.get? l = some (.file bytes) ↔ s.get? l = some (.file bytes) := by
  rcases h.get?_eq l with heq | ⟨hnone, hdirectory, -⟩
  · rw [heq]
  · simp [hnone, hdirectory]

end AddsDirectories

/-- Making a directory adds it where its path leads. -/
theorem addsDirectories_of_makeDirectory (h : s.makeDirectory path = .ok t) :
    AddsDirectories [path] s t := by
  unfold makeDirectory at h
  split at h
  · contradiction
  · contradiction
  · next here name slash hlocate =>
    split at h
    · contradiction
    · contradiction
    · next hchild =>
      obtain rfl := Except.ok.inj h
      refine ⟨rfl, ?_⟩
      intro l
      rw [get?_put]
      by_cases hl : l = name :: here
      · subst hl
        exact .inr ⟨(child?_eq_ok_iff.1 hchild).2, if_pos rfl, path,
          List.mem_singleton_self path, destination_of_locate hlocate⟩
      · exact .inl (if_neg hl)

/-- A directory that should exist is added or nothing changes. -/
theorem addsDirectories_ensureDirectory (s : Store) (path : Text) :
    AddsDirectories [path] s (s.ensureDirectory path).2 := by
  unfold ensureDirectory
  split
  · next hmake => exact addsDirectories_of_makeDirectory hmake
  · split
    · exact .refl _ s
    · exact .refl _ s

/-- Making directories only adds them, whether all of them can be made or not. -/
theorem addsDirectories_ensureDirectories (paths : List Text) (s : Store) :
    AddsDirectories paths s (ensureDirectories paths s).2 := by
  induction paths with
  | nil => exact .refl _ s
  | cons path outer ih =>
      have hhead : [path] ⊆ path :: outer := by simp
      have htail : outer ⊆ path :: outer := List.subset_cons_self path outer
      rw [ensureDirectories]
      split
      · split
        · next t houter =>
          rw [houter] at ih
          exact (ih.mono htail).trans ((addsDirectories_ensureDirectory t path).mono hhead)
        · next e t houter =>
          rw [houter] at ih
          exact ih.mono htail
      · exact (addsDirectories_ensureDirectory s path).mono hhead

/-! ## Files -/

/-- A file is read where its path leads. -/
theorem read_eq_ok_iff {bytes : List UInt8} :
    s.read path = .ok bytes ↔
      ∃ here name, s.locate path = .ok (.named here name false) ∧
        Text.byteLength name ≤ maxNameLength ∧ s.get? (name :: here) = some (.file bytes) := by
  constructor
  · intro h
    unfold read at h
    split at h
    · contradiction
    · contradiction
    · next here name slash hlocate =>
      split at h
      · contradiction
      · contradiction
      · contradiction
      · next found hchild =>
        split at h
        · contradiction
        · next hslash =>
          obtain rfl := Except.ok.inj h
          rw [Bool.eq_false_iff.2 hslash] at hlocate
          exact ⟨here, name, hlocate, child?_eq_ok_iff.1 hchild⟩
  · rintro ⟨here, name, hlocate, hfound⟩
    simp [read, hlocate, child?_eq_ok_iff.2 hfound]

/-- A file is written where its path leads, and not over a directory. -/
theorem exists_put_of_write {bytes : List UInt8} (h : s.write path bytes = .ok t) :
    ∃ here name, s.locate path = .ok (.named here name false) ∧
      Text.byteLength name ≤ maxNameLength ∧ s.get? (name :: here) ≠ some .directory ∧
      t = s.put (name :: here) (.file bytes) := by
  unfold write at h
  split at h
  · contradiction
  · contradiction
  · contradiction
  · next here name hlocate =>
    split at h
    · contradiction
    · contradiction
    · next found hnot hchild =>
      obtain ⟨hlong, hget⟩ := child?_eq_ok_iff.1 hchild
      refine ⟨here, name, hlocate, hlong, ?_, (Except.ok.inj h).symm⟩
      rintro hdirectory
      exact hnot (hget ▸ hdirectory)

/-- A file that replaces no directory leaves all directories where they are. -/
theorem keepsDirectories_put {l : Location} (h : s.get? l ≠ some .directory)
    (bytes : List UInt8) : s.KeepsDirectories (s.put l (.file bytes)) := by
  refine ⟨rfl, ?_⟩
  intro m hm
  have hml : m ≠ l := by
    rintro rfl
    exact h hm
  rw [get?_put, if_neg hml, hm]

/-- A file that was written can be read. -/
theorem read_of_write {bytes : List UInt8} (h : s.write path bytes = .ok t) :
    t.read path = .ok bytes := by
  obtain ⟨here, name, hlocate, hlong, hnot, rfl⟩ := exists_put_of_write h
  refine read_eq_ok_iff.2 ⟨here, name, ?_, hlong, ?_⟩
  · exact locate_of_keepsDirectories (keepsDirectories_put hnot bytes) hlocate
  · rw [get?_put, if_pos rfl]

/-! ## Saving -/

/-- Saving first adds directories above the file.  Then the file is written, or it
cannot be saved and nothing else is done. -/
theorem save_cases {bytes : List UInt8} {result : Except Fault Unit}
    (h : s.save path bytes = (result, u)) :
    (∃ fault, result = .error fault ∧ AddsDirectories (Path.above path) s u) ∨
      result = .ok () ∧
        ∃ t, AddsDirectories (Path.above path) s t ∧ t.write path bytes = .ok u := by
  have hadds := addsDirectories_ensureDirectories (Path.above path) s
  unfold save at h
  split at h
  · next fault t hensure =>
    obtain ⟨rfl, rfl⟩ := Prod.mk.inj h
    rw [hensure] at hadds
    exact .inl ⟨fault, rfl, hadds⟩
  · next t hensure =>
    rw [hensure] at hadds
    split at h
    · next hwrite =>
      obtain ⟨rfl, rfl⟩ := Prod.mk.inj h
      exact .inr ⟨rfl, t, hadds, hwrite⟩
    · next fault hwrite =>
      obtain ⟨rfl, rfl⟩ := Prod.mk.inj h
      exact .inl ⟨fault, rfl, hadds⟩

/-- A file that cannot be saved leaves at most new directories above it. -/
theorem addsDirectories_of_save {bytes : List UInt8} {fault : Fault}
    (h : s.save path bytes = (.error fault, t)) : AddsDirectories (Path.above path) s t := by
  rcases save_cases h with ⟨_, -, hadds⟩ | ⟨hok, -⟩
  · exact hadds
  · contradiction

/-- A saved file can be read. -/
theorem read_of_save {bytes : List UInt8} (h : s.save path bytes = (.ok (), t)) :
    t.read path = .ok bytes := by
  rcases save_cases h with ⟨_, herror, -⟩ | ⟨-, _, -, hwrite⟩
  · contradiction
  · exact read_of_write hwrite

/-- Added directories leave what can be read as it is. -/
theorem AddsDirectories.read {paths : List Text} (h : AddsDirectories paths s t)
    {bytes : List UInt8} (hread : s.read path = .ok bytes) : t.read path = .ok bytes := by
  obtain ⟨here, name, hlocate, hlong, hget⟩ := read_eq_ok_iff.1 hread
  exact read_eq_ok_iff.2 ⟨here, name, locate_of_keepsDirectories h.keepsDirectories hlocate, hlong,
    (h.get?_file_iff _ _).2 hget⟩

/-- A file stays as it is when another one is written. -/
theorem read_of_write_other {path' : Text} {bytes bytes' : List UInt8}
    (hread : s.read path = .ok bytes) (h : s.write path' bytes' = .ok t)
    (hother : ¬ s.SameFile path' path) : t.read path = .ok bytes := by
  obtain ⟨here, name, hlocate, hlong, hget⟩ := read_eq_ok_iff.1 hread
  obtain ⟨here', name', hlocate', -, hnot, rfl⟩ := exists_put_of_write h
  have hne : name :: here ≠ name' :: here' := by
    intro heq
    exact hother ⟨_, fileAt?_of_locate hlocate', heq ▸ fileAt?_of_locate hlocate⟩
  refine read_eq_ok_iff.2 ⟨here, name, ?_, hlong, ?_⟩
  · exact locate_of_keepsDirectories (keepsDirectories_put hnot bytes') hlocate
  · rw [get?_put, if_neg hne, hget]

/-- Saving leaves the current directory where it is. -/
theorem current_save {bytes : List UInt8} {result : Except Fault Unit}
    (h : s.save path bytes = (result, u)) : u.current = s.current := by
  rcases save_cases h with ⟨_, -, hadds⟩ | ⟨-, t, hadds, hwrite⟩
  · exact hadds.current_eq
  · obtain ⟨here, name, -, -, -, rfl⟩ := exists_put_of_write hwrite
    exact hadds.current_eq

/-- Which files are the same depends on the current directory alone. -/
theorem sameFile_congr (h : t.current = s.current) {path' : Text} :
    t.SameFile path path' ↔ s.SameFile path path' := by
  simp only [SameFile, fileAt?_congr h]

/-- A file stays as it is when another one is saved or cannot be saved. -/
theorem read_save {path' : Text} {bytes bytes' : List UInt8} {result : Except Fault Unit}
    (hread : s.read path = .ok bytes) (h : s.save path' bytes' = (result, u))
    (hother : ¬ s.SameFile path' path) : u.read path = .ok bytes := by
  rcases save_cases h with ⟨_, -, hadds⟩ | ⟨-, t, hadds, hwrite⟩
  · exact hadds.read hread
  · refine read_of_write_other (hadds.read hread) hwrite ?_
    rwa [sameFile_congr hadds.current_eq]

end Store

end BranchLabels
