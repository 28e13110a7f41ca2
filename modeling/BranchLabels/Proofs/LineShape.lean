import BranchLabels.Instruction
import BranchLabels.Proofs.Text.Numeral
import BranchLabels.Proofs.Text.Runs

/-!
# The grammar of instruction lines

A line is an instruction when it is made up of fields that fit, with blanks
between them.  There is at most one way to cut a line so, which makes the cut a
matter of the line and not of the reader: a change to the operands or to the
blanks at the end of a line leaves all other fields as they are.

Main results:

- Theorem `ofText?_eq_some_iff`: a line has the shape of an instruction exactly
  when it is made up of fields that fit and lie apart.
- Theorem `ofText?_append_blank`: one more blank at the end of a line belongs to
  its last gap or to its tail.
- Theorem `ofText?_withTail`: the tail of an instruction line can be exchanged.
-/

namespace BranchLabels

namespace LineShape

open Text

/-- The fields of a line lie apart: each ends where the next one starts. -/
structure Apart (s : LineShape) : Prop where
  colon_not_mem : ':' ∉ s.marker ++ s.digits
  gapBytes_blank : AllBlank s.gapBytes
  gapMnemonic_blank : AllBlank s.gapMnemonic
  mnemonic_noBlank : NoBlank s.mnemonic
  gapOperands_blank : AllBlank s.gapOperands
  tail_starts : StartsInField s.tail
  /-- Operands do not touch the mnemonic. -/
  tail_eq_nil : s.gapOperands = [] → s.tail = []

/-! ## Views of fields that fit -/

theorem Fits.length_marker {s : LineShape} (h : s.Fits) : s.marker.length = 2 := by
  rcases h.1 with hmarker | hmarker <;> rw [hmarker] <;> rfl

theorem Fits.rawBytes_ne_nil {s : LineShape} (h : s.Fits) : s.rawBytes ≠ [] :=
  h.2.2.2.1

theorem Fits.rawBytes_noBlank {s : LineShape} (h : s.Fits) : NoBlank s.rawBytes :=
  fun c hc => isBlank_eq_false_of_isHexDigit (h.2.2.2.2.1 c hc)

theorem Fits.gapMnemonic_ne_nil {s : LineShape} (h : s.Fits) : s.gapMnemonic ≠ [] :=
  h.2.2.2.2.2.1

theorem Fits.mnemonic_ne_nil {s : LineShape} (h : s.Fits) : s.mnemonic ≠ [] :=
  h.2.2.2.2.2.2

/-! ## One cut for each line -/

/-- A text without blanks is a run of field characters. -/
theorem inField_of_noBlank {t : Text} (h : NoBlank t) : ∀ c ∈ t, inField c = true := by
  intro c hc
  simp [inField, h c hc]

/-- A field ends before a gap, and before nothing. -/
theorem inField_eq_false_of_gap {gap rest : Text} (hgap : AllBlank gap)
    (hrest : gap = [] → rest = []) : ∀ c ∈ (gap ++ rest).head?, inField c = false := by
  intro c hc
  cases gap with
  | nil => simp [hrest rfl] at hc
  | cons b gap =>
      obtain rfl : b = c := by simpa using hc
      simp [inField, hgap b List.mem_cons_self]

/-- The fields that the reader cuts lie apart. -/
theorem apart_cut {head rest : Text} (hcolon : ':' ∉ head) : (cut head rest).Apart where
  colon_not_mem := by simpa [cut] using hcolon
  gapBytes_blank := allBlank_takeWhile _
  gapMnemonic_blank := allBlank_takeWhile _
  mnemonic_noBlank := by
    intro c hc
    have hfield : inField c = true := List.mem_takeWhile_imp hc
    simpa [inField] using hfield
  gapOperands_blank := allBlank_takeWhile _
  tail_starts := startsInField_trimStart _
  tail_eq_nil := by
    intro hgap
    simp only [cut] at hgap ⊢
    generalize hdrop : List.dropWhile inField _ = atOperands at hgap ⊢
    cases atOperands with
    | nil => rfl
    | cons c t =>
        -- What ends the mnemonic is blank, so the gap cannot be empty.
        have hfield : inField c = false := by
          apply not_of_mem_head?_dropWhile
          rw [hdrop]
          rfl
        have hblank : isBlank c = true := by simpa [inField] using hfield
        simp [hblank] at hgap

/-- A line with the shape of an instruction was cut at its first colon. -/
theorem exists_cut_of_ofText? {line : Text} {s : LineShape} (h : ofText? line = some s) :
    ∃ head rest, ':' ∉ head ∧ s = cut head rest ∧ s.Fits := by
  unfold ofText? at h
  split at h
  · contradiction
  · next head rest hcut =>
    split at h
    · next hfits =>
      obtain rfl := Option.some.inj h
      exact ⟨head, rest, (cutAtFirst?_eq_some_iff.1 hcut).2, rfl, hfits⟩
    · contradiction

/-- Fields that fit and lie apart are found again in the line they make up. -/
theorem ofText?_toText {s : LineShape} (hfits : s.Fits) (hapart : s.Apart) :
    ofText? s.toText = some s := by
  obtain ⟨marker, digits, gapBytes, rawBytes, gapMnemonic, mnemonic, gapOperands, tail⟩ := s
  obtain ⟨hcolon, hgapBytes, hgapMnemonic, hmnemonic, hgapOperands, htail, htailNil⟩ := hapart
  have hline : toText ⟨marker, digits, gapBytes, rawBytes, gapMnemonic, mnemonic, gapOperands,
      tail⟩ = (marker ++ digits) ++ ':' :: (gapBytes ++ (rawBytes ++ (gapMnemonic ++
        (mnemonic ++ (gapOperands ++ tail))))) := by
    simp [toText, lead]
  have hmarker : marker.length = 2 := hfits.length_marker
  have hrawField := inField_of_noBlank hfits.rawBytes_noBlank
  have hmnField := inField_of_noBlank hmnemonic
  -- Each of the five cuts stands at the start of what follows.
  have hatBytes :
      StartsInField (rawBytes ++ (gapMnemonic ++ (mnemonic ++ (gapOperands ++ tail)))) :=
    hfits.rawBytes_noBlank.startsInField.append fun h => absurd h hfits.rawBytes_ne_nil
  have hatGap : ∀ c ∈ (gapMnemonic ++ (mnemonic ++ (gapOperands ++ tail))).head?,
      inField c = false :=
    inField_eq_false_of_gap hgapMnemonic fun h => absurd h hfits.gapMnemonic_ne_nil
  have hatMnemonic : StartsInField (mnemonic ++ (gapOperands ++ tail)) :=
    hmnemonic.startsInField.append fun h => absurd h hfits.mnemonic_ne_nil
  have hatOperands : ∀ c ∈ (gapOperands ++ tail).head?, inField c = false :=
    inField_eq_false_of_gap hgapOperands htailNil
  have hcut : cut (marker ++ digits) (gapBytes ++ (rawBytes ++ (gapMnemonic ++ (mnemonic ++
      (gapOperands ++ tail))))) =
      ⟨marker, digits, gapBytes, rawBytes, gapMnemonic, mnemonic, gapOperands, tail⟩ := by
    simp only [cut, dropWhile_append_stop hgapBytes hatBytes,
      takeWhile_append_stop hgapBytes hatBytes, dropWhile_append_stop hrawField hatGap,
      takeWhile_append_stop hrawField hatGap, dropWhile_append_stop hgapMnemonic hatMnemonic,
      takeWhile_append_stop hgapMnemonic hatMnemonic, dropWhile_append_stop hmnField hatOperands,
      takeWhile_append_stop hmnField hatOperands, dropWhile_append_stop hgapOperands htail,
      takeWhile_append_stop hgapOperands htail, ← hmarker, List.take_left, List.drop_left]
  rw [hline, ofText?, cutAtFirst?_eq_some_iff.2 ⟨rfl, hcolon⟩]
  simp only [hcut, if_pos hfits]

/-- A line has the shape of an instruction exactly when it is made up of fields
that fit and lie apart. -/
theorem ofText?_eq_some_iff {line : Text} {s : LineShape} :
    ofText? line = some s ↔ s.Fits ∧ s.Apart ∧ s.toText = line := by
  constructor
  · intro h
    obtain ⟨head, rest, hcolon, rfl, hfits⟩ := exists_cut_of_ofText? h
    exact ⟨hfits, apart_cut hcolon, toText_of_ofText? h⟩
  · rintro ⟨hfits, hapart, rfl⟩
    exact ofText?_toText hfits hapart

/-! ## Lines that are no instructions -/

/-- Without a colon a line is no instruction. -/
theorem ofText?_eq_none_of_colon_not_mem {line : Text} (h : ':' ∉ line) :
    ofText? line = none := by
  rw [ofText?, cutAtFirst?_eq_none_iff.2 h]

/-- A line whose only colon ends it is no instruction. -/
theorem ofText?_append_colon {name : Text} (h : ':' ∉ name) :
    ofText? (name ++ [':']) = none := by
  have hcut : cutAtFirst? ':' (name ++ [':']) = some (name, []) :=
    cutAtFirst?_eq_some_iff.2 ⟨rfl, h⟩
  have hnot : ¬ (cut name []).Fits := fun hfits => hfits.rawBytes_ne_nil rfl
  rw [ofText?, hcut]
  simp only [if_neg hnot]

/-! ## Changes at the end of a line -/

/-- The tail of an instruction line with operands can be exchanged. -/
theorem ofText?_withTail {line tail : Text} {s : LineShape} (h : ofText? line = some s)
    (hne : s.tail ≠ []) (hstarts : StartsInField tail) :
    ofText? (s.lead ++ tail) = some { s with tail := tail } := by
  obtain ⟨hfits, hapart, -⟩ := ofText?_eq_some_iff.1 h
  have hchanged : LineShape.Apart { s with tail := tail } :=
    { hapart with
      tail_starts := hstarts
      tail_eq_nil := fun hgap => absurd (hapart.tail_eq_nil hgap) hne }
  exact ofText?_eq_some_iff.2 ⟨hfits, hchanged, rfl⟩

/-- The fields of a line with one more blank at its end. -/
def addBlank (c : Char) (s : LineShape) : LineShape :=
  if s.tail = [] then { s with gapOperands := s.gapOperands ++ [c] }
  else { s with tail := s.tail ++ [c] }

theorem toText_addBlank (c : Char) (s : LineShape) : (s.addBlank c).toText = s.toText ++ [c] := by
  unfold addBlank
  split
  · next htail => simp [toText, lead, htail]
  · simp [toText, lead]

theorem Fits.addBlank {s : LineShape} (h : s.Fits) (c : Char) : (s.addBlank c).Fits := by
  unfold LineShape.addBlank
  split
  · exact h
  · exact h

theorem Apart.addBlank {s : LineShape} (h : s.Apart) {c : Char} (hc : isBlank c = true) :
    (s.addBlank c).Apart := by
  unfold LineShape.addBlank
  split
  · next htail =>
    have hgap : AllBlank (s.gapOperands ++ [c]) :=
      h.gapOperands_blank.append (by simpa [AllBlank] using hc)
    exact { h with
      gapOperands_blank := hgap
      tail_eq_nil := fun _ => htail }
  · next hne =>
    exact { h with
      tail_starts := h.tail_starts.append fun htail => absurd htail hne
      tail_eq_nil := fun hgap => absurd (h.tail_eq_nil hgap) hne }

/-- A line that is an instruction with one more blank at its end is one without
that blank. -/
theorem exists_ofText?_of_append_blank {line : Text} {c : Char} (hc : isBlank c = true)
    {r : LineShape} (h : ofText? (line ++ [c]) = some r) : ∃ s, ofText? line = some s := by
  obtain ⟨hfits, hapart, htext⟩ := ofText?_eq_some_iff.1 h
  rcases List.eq_nil_or_concat r.tail with htail | ⟨tail, b, htail⟩
  · rcases List.eq_nil_or_concat r.gapOperands with hgap | ⟨gap, b, hgap⟩
    · -- The line would end with its mnemonic, which has no blanks.
      have hends : EndsInField (line ++ [c]) := by
        rw [← htext, toText, lead, htail, hgap]
        simp only [List.append_nil, ← List.append_assoc, ← List.cons_append]
        exact hapart.mnemonic_noBlank.endsInField.append_of_ne_nil hfits.mnemonic_ne_nil
      have hfalse : isBlank c = false := hends c (by simp)
      rw [hc] at hfalse
      contradiction
    · have hshorter : toText { r with gapOperands := gap } = line := by
        rw [toText, lead, htail, hgap] at htext
        simp only [List.concat_eq_append, ← List.append_assoc, ← List.cons_append,
          List.append_nil] at htext
        simp only [toText, lead, htail, List.append_nil, ← List.append_assoc, ← List.cons_append]
        exact (List.append_inj' htext rfl).1
      have hblank : AllBlank gap := fun d hd =>
        hapart.gapOperands_blank d (by simp [hgap, hd])
      refine ⟨{ r with gapOperands := gap }, ofText?_eq_some_iff.2 ⟨hfits, ?_, hshorter⟩⟩
      exact { hapart with
        gapOperands_blank := hblank
        tail_eq_nil := fun _ => htail }
  · have hshorter : toText { r with tail := tail } = line := by
      rw [toText, htail, List.concat_eq_append, ← List.append_assoc] at htext
      exact (List.append_inj' htext rfl).1
    have hstarts : StartsInField tail := by
      intro d hd
      apply hapart.tail_starts d
      rw [htail, List.concat_eq_append, List.head?_append, hd]
      rfl
    have hne : r.tail ≠ [] := by simp [htail]
    refine ⟨{ r with tail := tail }, ofText?_eq_some_iff.2 ⟨hfits, ?_, hshorter⟩⟩
    exact { hapart with
      tail_starts := hstarts
      tail_eq_nil := fun hgap => absurd (hapart.tail_eq_nil hgap) hne }

/-- One more blank at the end of a line belongs to its last gap or to its tail,
and makes no line an instruction. -/
theorem ofText?_append_blank {c : Char} (hc : isBlank c = true) (line : Text) :
    ofText? (line ++ [c]) = (ofText? line).map (addBlank c) := by
  cases h : ofText? line with
  | some s =>
      obtain ⟨hfits, hapart, rfl⟩ := ofText?_eq_some_iff.1 h
      rw [← toText_addBlank]
      exact ofText?_toText (hfits.addBlank c) (hapart.addBlank hc)
  | none =>
      cases hlonger : ofText? (line ++ [c]) with
      | none => rfl
      | some r =>
          obtain ⟨s, hs⟩ := exists_ofText?_of_append_blank hc hlonger
          rw [h] at hs
          contradiction

end LineShape

end BranchLabels
