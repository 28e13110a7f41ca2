import BranchLabels.Proofs.Rereading
import BranchLabels.Proofs.Store
import BranchLabels.Run

/-!
# What a run leaves

A run on a store reads a listing, labels it, saves the result and then exports the
labels and a report when they are asked for.  A run that fails does so at one of these
steps.  Nothing has changed before the result is saved, a file that cannot be saved is
not touched, and what was saved stays as it is when another file is exported.

Main results:

- Theorem `exec_bind`: operations on a store follow one another.
- Theorem `exec_run`: a run as its steps on a store.
- Theorem `read_exportAll`: exports leave the other files as they are.
- Theorem `failed_run_damages_nothing`: what a failed run leaves.
-/

namespace BranchLabels

/-- What a run exports of a labelling, in this order. -/
def Labelling.exports (p : Labelling) (args : Arguments) : List (Text × Json) :=
  (args.labelsOut.map (·, LabelEntry.listToJson (LabelEntry.ofTable p.labels))).toList ++
    (args.report.map (·, (Report.ofLabelling .rv32 p).toJson)).toList

namespace Store

variable {ε α β : Type} {s t : Store} {args : Arguments}

/-! ## Operations on a store -/

/-- The result of an operation on a store and what it leaves. -/
def exec (s : Store) (op : ExceptT ε (StateM Store) α) : Except ε α × Store :=
  op.run.run s

/-- An operation goes on with what the one before it leaves, unless that one fails. -/
theorem exec_bind (s : Store) (op : ExceptT ε (StateM Store) α)
    (next : α → ExceptT ε (StateM Store) β) :
    s.exec (op >>= next) =
      match s.exec op with
      | (.ok a, t) => t.exec (next a)
      | (.error e, t) => (.error e, t) := by
  have hbind : s.exec (op >>= next) =
      (ExceptT.bindCont next (s.exec op).1).run (s.exec op).2 := rfl
  rw [hbind]
  rcases s.exec op with ⟨_ | _, t⟩
  · rfl
  · rfl

/-- An operation that cannot fail. -/
theorem exec_liftM (s : Store) (op : StateM Store α) :
    s.exec (liftM op : ExceptT ε (StateM Store) α) = (.ok (op.run s).1, (op.run s).2) := rfl

/-- As part of a run, an operation only fails with another error. -/
theorem exec_asPart (s : Store) (context : FileError → RunError)
    (op : ExceptT FileError (StateM Store) α) :
    s.exec (asPart context op) =
      match s.exec op with
      | (.ok a, t) => (.ok a, t)
      | (.error e, t) => (.error (context e), t) := by
  have hrun : op.run.run s = s.exec op := rfl
  rw [asPart, exec_bind, exec_liftM, hrun]
  rcases s.exec op with ⟨_ | _, t⟩
  · rfl
  · rfl

theorem exec_readListing (s : Store) (path : Text) :
    s.exec (readListing path) =
      match s.read path with
      | .ok bytes => (.ok (Utf8.decode bytes), s)
      | .error fault => (.error (.ofRead path fault), s) := by
  have hread : (FileSystem.read path : StateM Store _).run s = (s.read path, s) := rfl
  rw [readListing, exec_bind, exec_liftM, hread]
  cases s.read path with
  | ok bytes => rfl
  | error fault => rfl

theorem exec_writeListing (s : Store) (path text : Text) :
    s.exec (writeListing path text) =
      match s.save path (Utf8.encode text) with
      | (.ok _, t) => (.ok (), t)
      | (.error fault, t) => (.error (FileError.write path fault), t) := by
  have hsave : (FileSystem.save path (Utf8.encode text) : StateM Store _).run s =
      s.save path (Utf8.encode text) := rfl
  rw [writeListing, exec_bind, exec_liftM, hsave]
  rcases s.save path (Utf8.encode text) with ⟨_ | _, t⟩
  · rfl
  · rfl

/-! ## Exports -/

/-- Save JSON values one after another until one of them cannot be saved. -/
def exportAll : List (Text × Json) → Store → Except RunError Unit × Store
  | [], s => (.ok (), s)
  | (path, v) :: rest, s =>
      match s.save path (Utf8.encode v.indented) with
      | (.ok _, t) => exportAll rest t
      | (.error fault, t) => (.error (.exporting path (.write path fault)), t)

theorem exec_writeJson (s : Store) (path : Text) (v : Json) :
    s.exec (writeJson path v) = exportAll [(path, v)] s := by
  rw [writeJson, exec_asPart, exec_writeListing, exportAll]
  rcases s.save path (Utf8.encode v.indented) with ⟨_ | _, t⟩
  · rfl
  · rfl

theorem exportAll_append (front back : List (Text × Json)) (s : Store) :
    exportAll (front ++ back) s =
      match exportAll front s with
      | (.ok _, t) => exportAll back t
      | (.error e, t) => (.error e, t) := by
  induction front generalizing s with
  | nil => rfl
  | cons item front ih =>
      obtain ⟨path, v⟩ := item
      rw [List.cons_append, exportAll, exportAll]
      rcases s.save path (Utf8.encode v.indented) with ⟨_ | _, t⟩
      · rfl
      · exact ih t

/-- A value is exported if there is a path for it, and then the run goes on. -/
theorem exec_writeJson_then (s : Store) (path? : Option Text) (v : Json)
    (next : ExceptT RunError (StateM Store) α) :
    s.exec (match path? with
      | some path => do
          writeJson path v
          next
      | _ => next) =
      match exportAll (path?.map (·, v)).toList s with
      | (.ok _, t) => t.exec next
      | (.error e, t) => (.error e, t) := by
  cases path? with
  | none => rfl
  | some path =>
      show s.exec (writeJson path v >>= fun _ => next) = _
      rw [exec_bind, exec_writeJson, Option.map_some, Option.toList_some]
      rcases exportAll [(path, v)] s with ⟨_ | _, t⟩
      · rfl
      · rfl

/-- A run as its steps on a store. -/
theorem exec_run (s : Store) (args : Arguments) :
    s.exec (run args) =
      match s.read args.input with
      | .error fault => (.error (.file (.ofRead args.input fault)), s)
      | .ok bytes =>
          match Labelling.ofText .rv32 args.config (Utf8.decode bytes) with
          | .error e => (.error (.processing args.input e), s)
          | .ok p =>
              match s.save args.output (Utf8.encode p.text) with
              | (.error fault, t) => (.error (.file (.write args.output fault)), t)
              | (.ok _, t) =>
                  match exportAll (p.exports args) t with
                  | (.error e, u) => (.error e, u)
                  | (.ok _, u) => (.ok p.labels.size, u) := by
  rw [run, exec_bind, exec_asPart, exec_readListing]
  cases s.read args.input with
  | error fault => rfl
  | ok bytes =>
      dsimp only
      cases Labelling.ofText .rv32 args.config (Utf8.decode bytes) with
      | error e => rfl
      | ok p =>
          dsimp only
          rw [exec_bind, exec_asPart, exec_writeListing]
          rcases s.save args.output (Utf8.encode p.text) with ⟨fault | _, t⟩
          · rfl
          · dsimp only
            rw [Labelling.exports, exportAll_append]
            -- the rest of the run stands in both branches of an optional export, so
            -- `exec_bind` does not apply to it
            refine (exec_writeJson_then t args.labelsOut _ _).trans ?_
            rcases exportAll _ t with ⟨e | _, u⟩
            · rfl
            · dsimp only
              refine (exec_writeJson_then u args.report _ _).trans ?_
              rcases exportAll _ u with ⟨e | _, v⟩
              · rfl
              · rfl

/-! ## Files that stay -/

/-- Exports leave other files as they are, whether all values can be saved or not. -/
theorem read_exportAll {items : List (Text × Json)} {path : Text} {bytes : List UInt8}
    {result : Except RunError Unit} (hread : s.read path = .ok bytes)
    (h : exportAll items s = (result, t)) (hother : ∀ item ∈ items, ¬ s.SameFile item.1 path) :
    t.read path = .ok bytes := by
  induction items generalizing s with
  | nil =>
      cases h
      exact hread
  | cons item items ih =>
      have hitem := hother item List.mem_cons_self
      obtain ⟨path', v⟩ := item
      rw [exportAll] at h
      split at h
      · next hsave =>
        refine ih (read_save hread hsave hitem) h ?_
        intro item hmem
        rw [sameFile_congr (current_save hsave)]
        exact hother item (List.mem_cons_of_mem _ hmem)
      · next hsave =>
        cases h
        exact read_save hread hsave hitem

/-- A value that cannot be exported leaves at most new directories above its path. -/
theorem addsDirectories_of_exportAll {path? : Option Text} {v : Json} {e : RunError}
    (h : exportAll (path?.map (·, v)).toList s = (.error e, t)) :
    ∃ path fault, path? = some path ∧ e = .exporting path (.write path fault) ∧
      AddsDirectories (Path.above path) s t := by
  cases path? with
  | none => cases h
  | some path =>
      rw [Option.map_some, Option.toList_some, exportAll] at h
      split at h
      · cases h
      · next fault _ hsave =>
        cases h
        exact ⟨path, fault, rfl, rfl, addsDirectories_of_save hsave⟩

/-! ## Failed runs -/

/-- What a failed run leaves of a store, by the step that failed. -/
inductive Aftermath (args : Arguments) (s : Store) : RunError → Store → Prop where
  /-- The listing cannot be read: nothing has changed. -/
  | reading {fault : Fault} (hread : s.read args.input = .error fault) :
      Aftermath args s (.file (.ofRead args.input fault)) s
  /-- The listing is refused: nothing has changed. -/
  | labelling {bytes : List UInt8} {e : ListingError} (hread : s.read args.input = .ok bytes)
      (hrefused : Labelling.ofText .rv32 args.config (Utf8.decode bytes) = .error e) :
      Aftermath args s (.processing args.input e) s
  /-- The result cannot be saved: all files are the same as before, and the only new
  directories are above the output. -/
  | writing {bytes : List UInt8} {p : Labelling} {fault : Fault} {t : Store}
      (hread : s.read args.input = .ok bytes)
      (hp : Labelling.ofText .rv32 args.config (Utf8.decode bytes) = .ok p)
      (hsave : s.save args.output (Utf8.encode p.text) = (.error fault, t))
      (hfiles : ∀ l content, t.get? l = some (.file content) ↔ s.get? l = some (.file content))
      (hadds : AddsDirectories (Path.above args.output) s t) :
      Aftermath args s (.file (.write args.output fault)) t
  /-- The labels cannot be saved: the output is complete. -/
  | exportingLabels {bytes : List UInt8} {p : Labelling} {path : Text} {fault : Fault}
      {t : Store} (hread : s.read args.input = .ok bytes)
      (hp : Labelling.ofText .rv32 args.config (Utf8.decode bytes) = .ok p)
      (hpath : args.labelsOut = some path)
      (houtput : t.read args.output = .ok (Utf8.encode p.text)) :
      Aftermath args s (.exporting path (.write path fault)) t
  /-- The report cannot be saved: the output is complete, unless the labels went to the
  same file. -/
  | exportingReport {bytes : List UInt8} {p : Labelling} {path : Text} {fault : Fault}
      {t : Store} (hread : s.read args.input = .ok bytes)
      (hp : Labelling.ofText .rv32 args.config (Utf8.decode bytes) = .ok p)
      (hpath : args.report = some path)
      (houtput : (∀ labels, args.labelsOut = some labels → ¬ s.SameFile labels args.output) →
        t.read args.output = .ok (Utf8.encode p.text)) :
      Aftermath args s (.exporting path (.write path fault)) t

/-- What exports that fail leave after the output was saved. -/
theorem aftermath_of_exportAll {bytes : List UInt8} {p : Labelling} {saved : Store}
    {e : RunError} (hread : s.read args.input = .ok bytes)
    (hp : Labelling.ofText .rv32 args.config (Utf8.decode bytes) = .ok p)
    (hsave : s.save args.output (Utf8.encode p.text) = (.ok (), saved))
    (hexport : exportAll (p.exports args) saved = (.error e, t)) : Aftermath args s e t := by
  have houtput : saved.read args.output = .ok (Utf8.encode p.text) := read_of_save hsave
  rw [Labelling.exports, exportAll_append] at hexport
  split at hexport
  · next labelled hlabels =>
    obtain ⟨path, fault, hpath, rfl, hadds⟩ := addsDirectories_of_exportAll hexport
    refine .exportingReport hread hp hpath ?_
    intro hother
    refine hadds.read (read_exportAll houtput hlabels ?_)
    intro item hitem
    obtain ⟨labels, hlabels, rfl⟩ := Option.map_eq_some_iff.1 (Option.mem_toList.1 hitem)
    rw [sameFile_congr (current_save hsave)]
    exact hother labels hlabels
  · next hlabels =>
    cases hexport
    obtain ⟨path, fault, hpath, rfl, hadds⟩ := addsDirectories_of_exportAll hlabels
    exact .exportingLabels hread hp hpath (hadds.read houtput)

/-- A failed run damages nothing: the store is as it was, or it only has new
directories above the output, or the output is complete. -/
theorem failed_run_damages_nothing {e : RunError} (h : s.exec (run args) = (.error e, t)) :
    Aftermath args s e t := by
  rw [exec_run] at h
  split at h
  · next fault hread =>
    cases h
    exact .reading hread
  · next bytes hread =>
    split at h
    · next hrefused =>
      cases h
      exact .labelling hread hrefused
    · next p hp =>
      split at h
      · next fault saved hsave =>
        cases h
        have hadds := addsDirectories_of_save hsave
        exact .writing hread hp hsave hadds.get?_file_iff hadds
      · next saved hsave =>
        split at h
        · next hexport =>
          cases h
          exact aftermath_of_exportAll hread hp hsave hexport
        · cases h

/-- A store with a listing in its current directory. -/
def sampleStore : Store :=
  fresh.put ("in".toList :: fresh.current) (.file (Utf8.encode Labelling.sampleText))

/-- The report cannot be saved, since it should be in a directory where the output
is. -/
def sampleArguments : Arguments where
  input := "in".toList
  output := "new/out".toList
  labelsOut := some "./new/labels".toList
  report := some "new/out/report".toList

theorem failed_run_damages_nothing_sample :
    ∃ p t, Labelling.ofText .rv32 .standard Labelling.sampleText = .ok p ∧
      sampleStore.exec (run sampleArguments) =
        (.error (.exporting "new/out/report".toList (.write "new/out/report".toList .present)), t) ∧
      t.read "new/out".toList = .ok (Utf8.encode p.text) := by
  have hother : ∀ labels, sampleArguments.labelsOut = some labels →
      ¬ sampleStore.SameFile labels sampleArguments.output := by
    intro labels hlabels
    obtain rfl := Option.some.inj hlabels
    rintro ⟨l, hl, hl'⟩
    exact absurd (hl.trans hl'.symm) (by decide +kernel)
  have hinput : sampleStore.read sampleArguments.input =
      .ok (Utf8.encode Labelling.sampleText) := by decide +kernel
  have hdecode : Utf8.decode (Utf8.encode Labelling.sampleText) = Labelling.sampleText := by
    decide +kernel
  have herror : (sampleStore.exec (run sampleArguments)).1 =
      .error (.exporting "new/out/report".toList (.write "new/out/report".toList .present)) := by
    decide +kernel
  have hexec := Prod.ext herror rfl
  cases failed_run_damages_nothing hexec with
  | exportingLabels _ _ hpath _ => exact absurd hpath (by decide)
  | exportingReport hread hp _ houtput =>
      obtain rfl := Except.ok.inj (hinput.symm.trans hread)
      rw [hdecode] at hp
      exact ⟨_, _, hp, hexec, houtput hother⟩

end Store

end BranchLabels
