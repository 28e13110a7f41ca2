import BranchLabels.Proofs.Refusal
import BranchLabels.Proofs.Segmentation
import BranchLabels.Proofs.Splicing
import BranchLabels.Session

/-!
# Edited instructions

An edit overwrites a field of an instruction and leaves its line as it is.  So
overwritten operands need not lie in the line, and the bytes at which a label would
be put in need not be places of the line any more: they may lie beyond its end or
inside a character.  Such an instruction is refused when it is written.  It takes
operands that end in a number to come there; in a session without such edits, lines
are read, edited and written in any order without a refusal of this kind.

Main results:

- Theorem `Instruction.write_eq_error_iff`: exactly an instruction without a place
  for its label is refused.
- Theorem `Session.mem_instructions_of_step`: where the instructions at a desk come
  from.
- Theorem `Session.exists_of_misplaced_mem_run`: what every instruction that is read
  has, and the edits of a session keep, an instruction has that the session could not
  write.
- Theorem `Session.misplaced_exactly_outside_line`: which edited instructions are
  refused, alone and in sessions.
-/

namespace BranchLabels

open Text

namespace Instruction

/-! ## A place for a label -/

/-- The bytes at which the line of an instruction is cut around an operand are
places of the line. -/
structure CutsLine (i : Instruction) (cut : OperandCut) : Prop where
  start_le_end : i.operandOffset + cut.startByte ≤ i.operandOffset + cut.endByte
  end_le_length : i.operandOffset + cut.endByte ≤ byteLength i.toText
  start_boundary : IsBoundary i.toText (i.operandOffset + cut.startByte)
  end_boundary : IsBoundary i.toText (i.operandOffset + cut.endByte)

/-- When a label is to be put into the line of an instruction, there is a place
for it. -/
def HasPlace (isa : Isa) (labels : LabelTable) (i : Instruction) : Prop :=
  ∀ name cut, i.TargetNamed isa labels name → lastOperand? i.operands = some cut →
    i.CutsLine cut

/-- Places of the line are those of its part from where the operands start. -/
theorem cutsLine_iff {i : Instruction} {cut : OperandCut} :
    i.CutsLine cut ↔ IsBoundary i.tail cut.startByte ∧ IsBoundary i.tail cut.endByte := by
  constructor
  · intro h
    exact ⟨isBoundary_append_iff.1 h.start_boundary, isBoundary_append_iff.1 h.end_boundary⟩
  · rintro ⟨hstart, hend⟩
    have hend' : IsBoundary i.toText (i.operandOffset + cut.endByte) :=
      isBoundary_append_iff.2 hend
    refine ⟨?_, hend'.le_byteLength, isBoundary_append_iff.2 hstart, hend'⟩
    rw [OperandCut.startByte, OperandCut.endByte, byteLength_append]
    omega

/-- A name can be put in exactly when the operand cuts the line. -/
theorem splice?_eq_none_iff {i : Instruction} {cut : OperandCut} {name : Text} :
    i.splice? cut name = none ↔ ¬ i.CutsLine cut := by
  rw [cutsLine_iff, ← exists_cutAtByte?_iff, ← exists_cutAtByte?_iff, splice?]
  cases cutAtByte? cut.startByte i.tail <;> cases cutAtByte? cut.endByte i.tail <;> simp

/-- Exactly an instruction without a place for its label is refused. -/
theorem write_eq_error_iff {isa : Isa} {labels : LabelTable} {i : Instruction}
    {e : ListingError} :
    i.write isa labels = .error e ↔
      ¬ i.HasPlace isa labels ∧ e = .misplacedOperand i.line := by
  cases hlabel : i.label? isa labels with
  | none =>
      have hplace : i.HasPlace isa labels := by
        intro name cut hname
        rw [← label?_eq_some_iff, hlabel] at hname
        contradiction
      simp [write, hlabel, hplace]
  | some name =>
      obtain ⟨-, cut, -, -, hcut⟩ := exists_cut_of_label? hlabel
      have hplace : i.HasPlace isa labels ↔ i.CutsLine cut := by
        constructor
        · intro h
          exact h name cut (label?_eq_some_iff.1 hlabel) hcut
        · intro h _ cut' _ hcut'
          rw [hcut] at hcut'
          exact Option.some.inj hcut' ▸ h
      rw [hplace, write, hlabel, hcut]
      cases hsplice : i.splice? cut name with
      | none => simp [splice?_eq_none_iff.1 hsplice, hsplice, eq_comm]
      | some text =>
          have hcuts : i.CutsLine cut := by
            by_contra hcuts
            rw [splice?_eq_none_iff.2 hcuts] at hsplice
            contradiction
          simp [hcuts, hsplice]

/-- An instruction with a place for its label can be written. -/
theorem HasPlace.exists_write {isa : Isa} {labels : LabelTable} {i : Instruction}
    (h : i.HasPlace isa labels) : ∃ line, i.write isa labels = .ok line := by
  cases hwrite : i.write isa labels with
  | ok line => exact ⟨line, rfl⟩
  | error e => exact absurd h (write_eq_error_iff.1 hwrite).1

/-- While the operands lie in the line, there is a place for a label. -/
theorem Placed.hasPlace {i : Instruction} (h : i.Placed) (isa : Isa) (labels : LabelTable) :
    i.HasPlace isa labels := by
  by_contra hplace
  have herror := write_eq_error_iff.2 ⟨hplace, rfl⟩
  rw [write_eq_ok h] at herror
  contradiction

/-- Where no number stands last, no label is to be put in. -/
theorem hasPlace_of_no_number {isa : Isa} {labels : LabelTable} {i : Instruction}
    (h : ∀ cut, lastOperand? i.operands = some cut → Literal.ofText? cut.token = none) :
    i.HasPlace isa labels := by
  rintro name cut ⟨t, a, ht, -⟩ -
  obtain ⟨-, cut', l, -, -, hcut, hl, -⟩ := target?_eq_some_iff.1 ht
  rw [h cut' hcut] at hl
  contradiction

end Instruction

/-- A listing is refused when it is written for one of its instructions. -/
theorem codeLines_eq_error {isa : Isa} {labels : LabelTable} {config : Config}
    {earlier : List Address} {is : List Instruction} {e : ListingError}
    (h : codeLines isa labels config earlier is = .error e) :
    ∃ i ∈ is, i.write isa labels = .error e := by
  induction is generalizing earlier with
  | nil => simp [codeLines] at h
  | cons i is ih =>
      rw [codeLines] at h
      split at h
      · next hwrite =>
        cases h
        exact ⟨i, List.mem_cons_self, hwrite⟩
      · split at h
        · next hrest =>
          cases h
          obtain ⟨j, hj, hwrite⟩ := ih hrest
          exact ⟨j, List.mem_cons_of_mem _ hj, hwrite⟩
        · contradiction

theorem Listing.labelledText_eq_error {isa : Isa} {labels : LabelTable} {config : Config}
    {l : Listing} {e : ListingError} (h : l.labelledText isa labels config = .error e) :
    ∃ i ∈ l.instructions, i.write isa labels = .error e := by
  rw [labelledText, labelledLines] at h
  cases hcode : codeLines isa labels config [] l.instructions with
  | ok code => simp [hcode, Except.map] at h
  | error e' =>
      obtain rfl : e' = e := by simpa [hcode, Except.map] using h
      exact codeLines_eq_error hcode

namespace Session

/-! ## Edits of one instruction -/

/-- An edit does not overwrite the operands with ones that end in a number. -/
def Edit.Harmless : Edit → Prop
  | .operands value =>
      ∀ cut, lastOperand? value = some cut → Literal.ofText? cut.token = none
  | _ => True

/-- Edits come to one overwriting of fields, with the operands of the instruction
or those of an edit. -/
theorem exists_foldl_apply (edits : List Edit) (i : Instruction) :
    ∃ address mnemonic operands,
      edits.foldl Edit.apply i = { i with address, mnemonic, operands } ∧
        (operands = i.operands ∨ .operands operands ∈ edits) := by
  induction edits generalizing i with
  | nil => exact ⟨i.address, i.mnemonic, i.operands, rfl, .inl rfl⟩
  | cons e edits ih =>
      obtain ⟨address, mnemonic, operands, hfold, horigin⟩ := ih (e.apply i)
      refine ⟨address, mnemonic, operands, ?_, ?_⟩
      · rw [List.foldl_cons, hfold]
        cases e <;> rfl
      · rcases horigin with horigin | hmem
        · cases e with
          | operands value => exact .inr (by simp [horigin, Edit.apply])
          | address value => exact .inl horigin
          | mnemonic value => exact .inl horigin
        · exact .inr (List.mem_cons_of_mem _ hmem)

@[simp] theorem line_foldl_apply (edits : List Edit) (i : Instruction) :
    (edits.foldl Edit.apply i).line = i.line := by
  obtain ⟨_, _, _, hfold, -⟩ := exists_foldl_apply edits i
  rw [hfold]

@[simp] theorem toText_foldl_apply (edits : List Edit) (i : Instruction) :
    (edits.foldl Edit.apply i).toText = i.toText := by
  obtain ⟨_, _, _, hfold, -⟩ := exists_foldl_apply edits i
  rw [hfold]
  rfl

@[simp] theorem operandOffset_foldl_apply (edits : List Edit) (i : Instruction) :
    (edits.foldl Edit.apply i).operandOffset = i.operandOffset := by
  obtain ⟨_, _, _, hfold, -⟩ := exists_foldl_apply edits i
  rw [hfold]
  rfl

/-- After harmless edits there is still a place for a label. -/
theorem hasPlace_of_harmless {number : Nat} {text : Text} {i : Instruction}
    (h : Instruction.read number text = .ok (some i)) {edits : List Edit}
    (hedits : ∀ e ∈ edits, e.Harmless) (isa : Isa) (labels : LabelTable) :
    (edits.foldl Edit.apply i).HasPlace isa labels := by
  obtain ⟨address, mnemonic, operands, hfold, horigin⟩ := exists_foldl_apply edits i
  rw [hfold]
  rcases horigin with rfl | hmem
  · -- The operands are still those of the line, and nothing else counts.
    have hplaced : i.Placed := Instruction.placed_of_read h
    exact Instruction.Placed.hasPlace (i := { i with address, mnemonic }) hplaced isa labels
  · exact Instruction.hasPlace_of_no_number (hedits _ hmem)

/-! ## One step of a session -/

/-- A step that takes up an instruction goes on with one at the desk, unless there
is none with the index. -/
theorem exists_of_at?_bind {β : Type} {is : List Instruction} {index : Nat}
    {f : Instruction → Except Refusal β} {r : Except Refusal β} (h : at? is index >>= f = r)
    (hr : r ≠ .error .badIndex) : ∃ i ∈ is, f i = r := by
  unfold at? at h
  cases hget : is[index]? with
  | some i =>
      rw [hget] at h
      exact ⟨i, List.mem_of_getElem? hget, h⟩
  | none =>
      rw [hget] at h
      exact absurd h.symm hr

theorem check_bind_eq_ok_iff {α β : Type} {x : Except ListingError α}
    {f : α → Except Refusal β} {b : β} :
    check x >>= f = .ok b ↔ ∃ a, x = .ok a ∧ f a = .ok b := by
  cases x <;> simp [check, bind, Except.bind]

theorem check_bind_eq_error_iff {α β : Type} {x : Except ListingError α}
    {f : α → Except Refusal β} {e : ListingError} :
    check x >>= f = .error (.listing e) ↔
      x = .error e ∨ ∃ a, x = .ok a ∧ f a = .error (.listing e) := by
  cases x <;> simp [check, bind, Except.bind]

/-- An instruction at the desk after a task was there before, was just read, or was
edited by the task. -/
theorem mem_instructions_of_step {isa : Isa} {d d' : Desk} {task : Task} {reply : Reply}
    (h : d.step isa task = .ok (reply, d')) {i : Instruction}
    (hi : i ∈ d'.listing.instructions) :
    i ∈ d.listing.instructions ∨
      (∃ number text, Instruction.read number text = .ok (some i)) ∨
        ∃ index change, task = .edit index change ∧
          ∃ j ∈ d.listing.instructions, i = change.apply j := by
  have hparsed : ∀ {text listing}, Listing.ofText text = .ok listing →
      i ∈ listing.instructions → ∃ number text, Instruction.read number text = .ok (some i) :=
    fun hlisting hmem =>
      ⟨_, _, ((Listing.wellFormed_of_ofText hlisting).instructions_read i hmem).1⟩
  cases task with
  | configure config =>
      obtain ⟨_, -, hok⟩ := check_bind_eq_ok_iff.1 h
      cases hok
      exact .inl hi
  | parse text =>
      obtain ⟨listing, hlisting, hok⟩ := check_bind_eq_ok_iff.1 h
      cases hok
      exact .inr (.inl (hparsed hlisting hi))
  | push line text =>
      obtain ⟨read, hread, hok⟩ := check_bind_eq_ok_iff.1 h
      cases read with
      | none =>
          cases hok
          exact .inl hi
      | some j =>
          cases hok
          rcases List.mem_append.1 hi with hold | hnew
          · exact .inl hold
          · obtain rfl := List.mem_singleton.1 hnew
            exact .inr (.inl ⟨line, text, hread⟩)
  | remove index =>
      obtain ⟨j, -, hok⟩ := exists_of_at?_bind h (by simp)
      cases hok
      exact .inl (List.mem_of_mem_eraseIdx hi)
  | swap a b =>
      obtain ⟨j, hj, hrest⟩ := exists_of_at?_bind h (by simp)
      obtain ⟨k, hk, hok⟩ := exists_of_at?_bind hrest (by simp)
      cases hok
      left
      rcases List.mem_or_eq_of_mem_set hi with hset | rfl
      · rcases List.mem_or_eq_of_mem_set hset with hold | rfl
        · exact hold
        · exact hk
      · exact hj
  | edit index change =>
      obtain ⟨j, hj, hok⟩ := exists_of_at?_bind h (by simp)
      cases hok
      rcases List.mem_or_eq_of_mem_set hi with hold | rfl
      · exact .inl hold
      · exact .inr (.inr ⟨index, change, rfl, j, hj, rfl⟩)
  | reparse =>
      obtain ⟨text, -, hrest⟩ := check_bind_eq_ok_iff.1 h
      obtain ⟨listing, hlisting, hok⟩ := check_bind_eq_ok_iff.1 hrest
      cases hok
      exact .inr (.inl (hparsed hlisting hi))
  | resolve index =>
      obtain ⟨j, -, hok⟩ := exists_of_at?_bind h (by simp)
      cases hok
      exact .inl hi
  | writeLine index =>
      obtain ⟨j, -, hrest⟩ := exists_of_at?_bind h (by simp)
      obtain ⟨line, -, hok⟩ := check_bind_eq_ok_iff.1 hrest
      cases hok
      exact .inl hi
  | emit =>
      obtain ⟨text, -, hok⟩ := check_bind_eq_ok_iff.1 h
      cases hok
      exact .inl hi
  | addHeader text => cases h; exact .inl hi
  | addTrailer text => cases h; exact .inl hi
  | build stem => cases h; exact .inl hi
  | clear => cases h; exact .inl hi
  | get address => cases h; exact .inl hi
  | display => cases h; exact .inl hi

/-- No text is refused for misplaced operands when it is read. -/
theorem ofText_ne_misplaced (text : Text) (number : Nat) :
    Listing.ofText text ≠ .error (.misplacedOperand number) := by
  intro h
  obtain ⟨k, token, -, heq⟩ := Listing.ofText_eq_error_iff.1 h
  contradiction

/-- A task is refused for misplaced operands only when it is to write an
instruction at the desk that cannot be written. -/
theorem exists_of_misplaced_step {isa : Isa} {d : Desk} {task : Task} {number : Nat}
    (h : d.step isa task = .error (.listing (.misplacedOperand number))) :
    ∃ i ∈ d.listing.instructions,
      i.write isa d.labels = .error (.misplacedOperand number) := by
  cases task with
  | configure config =>
      obtain hvalidate | ⟨_, -, hok⟩ := check_bind_eq_error_iff.1 h
      · unfold Config.validate at hvalidate
        split at hvalidate <;> cases hvalidate
      · contradiction
  | parse text =>
      obtain hparse | ⟨listing, -, hok⟩ := check_bind_eq_error_iff.1 h
      · exact absurd hparse (ofText_ne_misplaced text number)
      · contradiction
  | push line text =>
      obtain hread | ⟨read, -, hok⟩ := check_bind_eq_error_iff.1 h
      · obtain ⟨-, heq⟩ := Instruction.read_eq_error_iff.1 hread
        contradiction
      · cases read <;> contradiction
  | remove index =>
      obtain ⟨j, -, hok⟩ := exists_of_at?_bind h (by simp)
      contradiction
  | swap a b =>
      obtain ⟨j, -, hrest⟩ := exists_of_at?_bind h (by simp)
      obtain ⟨k, -, hok⟩ := exists_of_at?_bind hrest (by simp)
      contradiction
  | edit index change =>
      obtain ⟨j, -, hok⟩ := exists_of_at?_bind h (by simp)
      contradiction
  | resolve index =>
      obtain ⟨j, -, hok⟩ := exists_of_at?_bind h (by simp)
      contradiction
  | writeLine index =>
      obtain ⟨j, hj, hrest⟩ := exists_of_at?_bind h (by simp)
      obtain hwrite | ⟨line, -, hok⟩ := check_bind_eq_error_iff.1 hrest
      · exact ⟨j, hj, hwrite⟩
      · contradiction
  | emit =>
      obtain hwrite | ⟨text, -, hok⟩ := check_bind_eq_error_iff.1 h
      · exact Listing.labelledText_eq_error hwrite
      · contradiction
  | reparse =>
      obtain hwrite | ⟨text, -, hrest⟩ := check_bind_eq_error_iff.1 h
      · exact Listing.labelledText_eq_error hwrite
      · obtain hparse | ⟨listing, -, hok⟩ := check_bind_eq_error_iff.1 hrest
        · exact absurd hparse (ofText_ne_misplaced text number)
        · contradiction
  | addHeader text => contradiction
  | addTrailer text => contradiction
  | build stem => contradiction
  | clear => contradiction
  | get address => contradiction
  | display => contradiction

/-! ## Whole sessions -/

/-- All instructions at the desk of a session have a property. -/
def State.All (P : Instruction → Prop) (s : State) : Prop :=
  ∀ i ∈ s.desk.listing.instructions, P i

/-- A property of all instructions that are read is kept by a step that edits only
in ways that keep it. -/
theorem State.All.step {P : Instruction → Prop}
    (hread : ∀ number text i, Instruction.read number text = .ok (some i) → P i)
    {isa : Isa} {s : State} (h : s.All P) {c : Command}
    (hedit : ∀ index change, c = .work (.edit index change) → ∀ i, P i → P (change.apply i)) :
    (s.step isa c).2.All P := by
  cases c with
  | save => exact h
  | compare => exact h
  | work task =>
      cases hstep : s.desk.step isa task with
      | error e => simpa only [State.step, hstep] using h
      | ok result =>
          obtain ⟨reply, d'⟩ := result
          simp only [State.step, hstep]
          intro i hi
          obtain hold | ⟨number, text, hnew⟩ | ⟨index, change, rfl, j, hj, rfl⟩ :=
            mem_instructions_of_step hstep hi
          · exact h i hold
          · exact hread number text i hnew
          · exact hedit index change rfl j (h j hj)

/-- What holds of every instruction that is read, and is kept by the edits of a
session, holds of an instruction that the session could not write. -/
theorem exists_of_misplaced_mem_run {P : Instruction → Prop}
    (hread : ∀ number text i, Instruction.read number text = .ok (some i) → P i)
    {isa : Isa} {s : State} (hs : s.All P) {commands : List Command}
    (hedit : ∀ index change, .work (.edit index change) ∈ commands →
      ∀ i, P i → P (change.apply i)) {number : Nat}
    (h : .error (.listing (.misplacedOperand number)) ∈ run isa s commands) :
    ∃ i labels, P i ∧ i.write isa labels = .error (.misplacedOperand number) := by
  induction commands generalizing s with
  | nil => simp [run] at h
  | cons c commands ih =>
      rcases List.mem_cons.1 h with hhead | htail
      · -- Only a task is refused, and it writes what is at the desk.
        cases c with
        | save => simp [State.step] at hhead
        | compare => simp [State.step] at hhead
        | work task =>
            cases hstep : s.desk.step isa task with
            | ok result => simp [State.step, hstep] at hhead
            | error e =>
                simp only [State.step, hstep, Except.error.injEq] at hhead
                obtain ⟨i, hi, hwrite⟩ := exists_of_misplaced_step (hhead ▸ hstep)
                exact ⟨i, s.desk.labels, hs i hi, hwrite⟩
      · refine ih (hs.step hread ?_) ?_ htail
        · rintro index change rfl
          exact hedit index change List.mem_cons_self
        · exact fun index change hmem => hedit index change (List.mem_cons_of_mem _ hmem)

/-- An instruction was read as its line and then edited in ways of a kind. -/
def EditedBy (made : Edit → Prop) (j : Instruction) : Prop :=
  ∃ (text : Text) (i : Instruction) (edits : List Edit),
    Instruction.read j.line text = .ok (some i) ∧ (∀ e ∈ edits, made e) ∧
      j = edits.foldl Edit.apply i

theorem editedBy_of_read {made : Edit → Prop} {number : Nat} {text : Text} {i : Instruction}
    (h : Instruction.read number text = .ok (some i)) : EditedBy made i := by
  rw [← Instruction.line_of_read h] at h
  exact ⟨text, i, [], h, by simp, rfl⟩

theorem EditedBy.apply {made : Edit → Prop} {j : Instruction} (h : EditedBy made j) {e : Edit}
    (he : made e) : EditedBy made (e.apply j) := by
  obtain ⟨text, i, edits, hread, hmade, hj⟩ := h
  refine ⟨text, i, edits ++ [e], ?_, ?_, ?_⟩
  · cases e <;> exact hread
  · intro e' he'
    rcases List.mem_append.1 he' with hold | hnew
    · exact hmade e' hold
    · exact List.mem_singleton.1 hnew ▸ he
  · rw [List.foldl_append, ← hj]
    rfl

/-- An edit is made in a session. -/
def Makes (commands : List Command) (e : Edit) : Prop :=
  ∃ index, .work (.edit index e) ∈ commands

/-- A session that refuses to write an instruction has read and edited one that has
no place for its label. -/
theorem exists_edited_of_misplaced {isa : Isa} {commands : List Command} {number : Nat}
    (h : .error (.listing (.misplacedOperand number)) ∈ run isa {} commands) :
    ∃ (text : Text) (i : Instruction) (edits : List Edit) (labels : LabelTable),
      Instruction.read number text = .ok (some i) ∧ (∀ e ∈ edits, Makes commands e) ∧
        ¬ (edits.foldl Edit.apply i).HasPlace isa labels := by
  have hstart : State.All (EditedBy (Makes commands)) {} := by
    intro i hi
    contradiction
  obtain ⟨j, labels, hedited, hwrite⟩ := exists_of_misplaced_mem_run
    (fun _ _ _ => editedBy_of_read) hstart
    (fun index change hmem i hi => hi.apply ⟨index, hmem⟩) h
  obtain ⟨hplace, hline⟩ := Instruction.write_eq_error_iff.1 hwrite
  obtain ⟨text, i, edits, hread, hmade, rfl⟩ := hedited
  obtain rfl := ListingError.misplacedOperand.inj hline
  exact ⟨text, i, edits, labels, hread, hmade, hplace⟩

/-- An edited instruction keeps its line and the place where the operands start.  It
is refused exactly when a label is to be put in at bytes that are no places of the
line, which does not happen after harmless edits.  A session refuses an
instruction for no other cause, so that one with harmless edits refuses none. -/
theorem misplaced_exactly_outside_line (isa : Isa) :
    (∀ number text i, Instruction.read number text = .ok (some i) →
      ∀ (edits : List Edit) (labels : LabelTable),
        let j := edits.foldl Edit.apply i
        (j.toText = text ∧ j.operandOffset = i.operandOffset) ∧
        (j.HasPlace isa labels → ∃ line, j.write isa labels = .ok line) ∧
        (¬ j.HasPlace isa labels → j.write isa labels = .error (.misplacedOperand number)) ∧
        ((∀ e ∈ edits, e.Harmless) → j.HasPlace isa labels)) ∧
    ∀ (commands : List Command) (number : Nat),
      (.error (.listing (.misplacedOperand number)) ∈ run isa {} commands →
        ∃ (text : Text) (i : Instruction) (edits : List Edit) (labels : LabelTable),
          Instruction.read number text = .ok (some i) ∧ (∀ e ∈ edits, Makes commands e) ∧
            ¬ (edits.foldl Edit.apply i).HasPlace isa labels) ∧
      ((∀ e, Makes commands e → e.Harmless) →
        .error (.listing (.misplacedOperand number)) ∉ run isa {} commands) := by
  constructor
  · intro number text i hread edits labels j
    have htext : j.toText = text :=
      (toText_foldl_apply edits i).trans (Instruction.toText_of_read hread)
    have hline : j.line = number :=
      (line_foldl_apply edits i).trans (Instruction.line_of_read hread)
    refine ⟨⟨htext, operandOffset_foldl_apply edits i⟩, Instruction.HasPlace.exists_write, ?_, ?_⟩
    · intro hplace
      rw [← hline]
      exact Instruction.write_eq_error_iff.2 ⟨hplace, rfl⟩
    · exact fun hedits => hasPlace_of_harmless hread hedits isa labels
  · intro commands number
    refine ⟨exists_edited_of_misplaced, ?_⟩
    intro hharmless hrefused
    obtain ⟨text, i, edits, labels, hread, hmade, hplace⟩ :=
      exists_edited_of_misplaced hrefused
    exact hplace (hasPlace_of_harmless hread (fun e he => hharmless e (hmade e he)) isa labels)

/-- A line with a jump to itself. -/
def jumpLine : Text :=
  "0x0: 13 j 0x0".toList

/-- What is read from the line. -/
def jump : Instruction :=
  ⟨1, 0, "13".toList, "j".toList, "0x0".toList, "0x0: 13 j ".toList, "0x0".toList⟩

theorem read_jumpLine : Instruction.read 1 jumpLine = .ok (some jump) := by
  decide +kernel

/-- The line is read, its operands are overwritten and it is written. -/
def overwriting (operands : Text) : List Command :=
  [.work (.parse jumpLine), .work (.build none), .work (.edit 0 (.operands operands)),
    .work (.writeLine 0), .work .emit]

/-- A jump becomes a call from elsewhere, and in a session its operands are
overwritten with ones that end in a name. -/
theorem misplaced_exactly_outside_line_sample :
    ([Edit.mnemonic "call".toList, .address 8].foldl Edit.apply jump).HasPlace .rv32
        (LabelTable.ofAddresses "loc_".toList [0]) ∧
      .error (.listing (.misplacedOperand 1)) ∉
        run .rv32 {} (overwriting "zero, somewhere".toList) := by
  constructor
  · refine ((misplaced_exactly_outside_line .rv32).1 1 jumpLine jump read_jumpLine _ _).2.2.2 ?_
    simp [Edit.Harmless]
  · apply ((misplaced_exactly_outside_line .rv32).2 _ 1).2
    rintro e ⟨index, hmem⟩
    obtain ⟨-, rfl⟩ : index = 0 ∧ e = .operands "zero, somewhere".toList := by
      simpa [overwriting] using hmem
    intro cut hcut
    obtain rfl : ⟨"zero, ".toList, "somewhere".toList, []⟩ = cut :=
      Option.some.inj ((by decide +kernel : _ = _).trans hcut)
    decide +kernel

/-- Longer operands that end in a number send the label beyond the end of the
line. -/
theorem longer_operands_are_misplaced :
    Instruction.read 1 jumpLine = .ok (some jump) ∧
      ¬ ([Edit.operands "zero, 0x0".toList].foldl Edit.apply jump).HasPlace .rv32
        (LabelTable.ofAddresses "loc_".toList [0]) ∧
      .error (.listing (.misplacedOperand 1)) ∈
        run .rv32 {} (overwriting "zero, 0x0".toList) := by
  refine ⟨read_jumpLine, ?_, by decide +kernel⟩
  have hwrite : ([Edit.operands "zero, 0x0".toList].foldl Edit.apply jump).write .rv32
      (LabelTable.ofAddresses "loc_".toList [0]) = .error (.misplacedOperand 1) := by
    decide +kernel
  exact (Instruction.write_eq_error_iff.1 hwrite).1

end Session

end BranchLabels
