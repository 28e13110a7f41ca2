import BranchLabels.Text.Blank
import Mathlib.Data.List.TakeWhile

/-!
# Runs of characters

A reader cuts a text where a class of characters ends.  Each cut is fixed by the
characters on its two sides: the piece before it lies in the class, and the text
after it does not start in the class.  This file says so for every cut that the
readers of a listing make.

Main results:

- Theorems `takeWhile_append_stop` and `dropWhile_append_stop`: a run ends where
  its class ends.
- Theorems `trimEnd_append` and `blankEnd_append`: the blanks at the end of a
  text are what trimming takes off.
- Theorem `trim_append_allBlank`: more blanks at the end do not matter.
- Theorems `uptoLast_append` and `afterLast_append`: the last separator divides a
  text in one way only.
- Theorem `cutAtFirst?_eq_some_iff`: so does the first one.
- Theorem `getLast?_splitOn`: what follows the last separator is the last piece.
-/

namespace BranchLabels

namespace Text

/-! ## Classes of texts -/

/-- All characters of a text are blank. -/
def AllBlank (t : Text) : Prop :=
  ∀ c ∈ t, isBlank c = true

/-- No character of a text is blank. -/
def NoBlank (t : Text) : Prop :=
  ∀ c ∈ t, isBlank c = false

/-- A text does not start with a blank. -/
def StartsInField (t : Text) : Prop :=
  ∀ c ∈ t.head?, isBlank c = false

/-- A text does not end with a blank. -/
def EndsInField (t : Text) : Prop :=
  ∀ c ∈ t.getLast?, isBlank c = false

theorem AllBlank.append {s t : Text} (hs : AllBlank s) (ht : AllBlank t) :
    AllBlank (s ++ t) := by
  intro c hc
  rcases List.mem_append.1 hc with hc | hc
  · exact hs c hc
  · exact ht c hc

theorem NoBlank.startsInField {t : Text} (h : NoBlank t) : StartsInField t :=
  fun c hc => h c (List.mem_of_mem_head? hc)

theorem NoBlank.endsInField {t : Text} (h : NoBlank t) : EndsInField t :=
  fun c hc => h c (List.mem_of_getLast? hc)

/-- What a text starts with is decided by its first nonempty part. -/
theorem StartsInField.append {s t : Text} (hs : StartsInField s)
    (ht : s = [] → StartsInField t) : StartsInField (s ++ t) := by
  cases s with
  | nil => exact ht rfl
  | cons c s => exact hs

/-- A text that ends in a field still does after more text in front. -/
theorem EndsInField.append_of_ne_nil {s t : Text} (ht : EndsInField t) (hne : t ≠ []) :
    EndsInField (s ++ t) := by
  intro c hc
  rw [List.getLast?_append, List.getLast?_eq_some_getLast hne, Option.some_or] at hc
  exact ht c (List.getLast?_eq_some_getLast hne ▸ hc)

/-- A text that starts in a field and has only blanks is empty. -/
theorem eq_nil_of_allBlank {t : Text} (hblank : AllBlank t) (hstart : StartsInField t) :
    t = [] := by
  cases t with
  | nil => rfl
  | cons c t =>
      have htrue : isBlank c = true := hblank c List.mem_cons_self
      have hfalse : isBlank c = false := hstart c rfl
      rw [htrue] at hfalse
      contradiction

/-! ## Runs from the front -/

/-- A run ends where its class ends. -/
theorem takeWhile_append_stop {p : Char → Bool} {s t : Text} (hs : ∀ c ∈ s, p c = true)
    (ht : ∀ c ∈ t.head?, p c = false) : (s ++ t).takeWhile p = s := by
  rw [List.takeWhile_append_of_pos hs]
  cases t with
  | nil => simp
  | cons c t => simp [ht c rfl]

/-- What follows a run starts where its class ends. -/
theorem dropWhile_append_stop {p : Char → Bool} {s t : Text} (hs : ∀ c ∈ s, p c = true)
    (ht : ∀ c ∈ t.head?, p c = false) : (s ++ t).dropWhile p = t := by
  rw [List.dropWhile_append_of_pos hs]
  cases t with
  | nil => rfl
  | cons c t => simp [ht c rfl]

/-- What follows a run does not start in its class. -/
theorem not_of_mem_head?_dropWhile {p : Char → Bool} {t : Text} {c : Char}
    (hc : c ∈ (t.dropWhile p).head?) : p c = false := by
  have hnot := List.head?_dropWhile_not p t
  rw [hc] at hnot
  exact hnot

theorem allBlank_takeWhile (t : Text) : AllBlank (t.takeWhile isBlank) :=
  fun _ hc => List.mem_takeWhile_imp hc

theorem startsInField_trimStart (t : Text) : StartsInField (trimStart t) :=
  fun _ hc => not_of_mem_head?_dropWhile hc

/-- Trimming the start takes off exactly the blanks there. -/
theorem trimStart_append {s t : Text} (hs : AllBlank s) (ht : StartsInField t) :
    trimStart (s ++ t) = t :=
  dropWhile_append_stop hs ht

/-! ## Runs from the end -/

theorem allBlank_blankEnd (t : Text) : AllBlank (blankEnd t) := by
  intro c hc
  exact List.mem_takeWhile_imp (List.mem_reverse.1 hc)

theorem endsInField_trimEnd (t : Text) : EndsInField (trimEnd t) := by
  intro c hc
  rw [trimEnd, List.getLast?_reverse] at hc
  exact not_of_mem_head?_dropWhile hc

/-- Trimming the end leaves what stands before the blanks there. -/
theorem trimEnd_append {s t : Text} (hs : EndsInField s) (ht : AllBlank t) :
    trimEnd (s ++ t) = s := by
  have hrun : ∀ c ∈ t.reverse, isBlank c = true := by
    intro c hc
    exact ht c (List.mem_reverse.1 hc)
  have hstop : ∀ c ∈ s.reverse.head?, isBlank c = false := by
    rw [List.head?_reverse]
    exact hs
  rw [trimEnd, List.reverse_append, dropWhile_append_stop hrun hstop, List.reverse_reverse]

/-- The blanks at the end are what stands after the last field. -/
theorem blankEnd_append {s t : Text} (hs : EndsInField s) (ht : AllBlank t) :
    blankEnd (s ++ t) = t := by
  have hsplit : trimEnd (s ++ t) ++ blankEnd (s ++ t) = s ++ t :=
    trimEnd_append_blankEnd (s ++ t)
  rw [trimEnd_append hs ht] at hsplit
  exact List.append_cancel_left hsplit

/-- More blanks at the end change nothing about a trimmed text. -/
theorem trimEnd_append_allBlank (s : Text) {t : Text} (ht : AllBlank t) :
    trimEnd (s ++ t) = trimEnd s := by
  have hsplit : s ++ t = trimEnd s ++ (blankEnd s ++ t) := by
    rw [← List.append_assoc, trimEnd_append_blankEnd]
  rw [hsplit]
  exact trimEnd_append (endsInField_trimEnd s) ((allBlank_blankEnd s).append ht)

/-- Behind the trimmed text stand the blanks at the end. -/
theorem drop_length_trimEnd (t : Text) : t.drop (trimEnd t).length = blankEnd t := by
  have hsplit : (trimEnd t ++ blankEnd t).drop (trimEnd t).length = blankEnd t :=
    List.drop_left
  rwa [trimEnd_append_blankEnd] at hsplit

/-- Trimming the end keeps how a text starts. -/
theorem startsInField_trimEnd {t : Text} (h : StartsInField t) :
    StartsInField (trimEnd t) := by
  intro c hc
  apply h c
  rw [← trimEnd_append_blankEnd t, List.head?_append, hc]
  rfl

/-! ## Runs at both ends -/

/-- A text that neither starts nor ends with a blank stays as it is. -/
theorem trim_eq_self {t : Text} (hstart : StartsInField t) (hend : EndsInField t) :
    trim t = t := by
  have hnone : AllBlank [] := by simp [AllBlank]
  have hfront : trimStart ([] ++ t) = t := trimStart_append hnone hstart
  have hback : trimEnd (t ++ []) = t := trimEnd_append hend hnone
  rw [List.nil_append] at hfront
  rw [List.append_nil] at hback
  rw [trim, hfront, hback]

/-- More blanks at the end do not matter once all are taken off. -/
theorem trim_append_allBlank (s : Text) {t : Text} (ht : AllBlank t) :
    trim (s ++ t) = trim s := by
  unfold trim trimStart
  rw [List.dropWhile_append]
  by_cases hs : (s.dropWhile isBlank).isEmpty = true
  · rw [if_pos hs, List.isEmpty_iff.1 hs, List.dropWhile_eq_nil_iff.2 ht]
  · rw [if_neg hs, trimEnd_append_allBlank _ ht]

/-! ## Separators -/

/-- The part up to the last separator ends with it. -/
theorem eq_of_mem_getLast?_uptoLast {sep c : Char} {t : Text}
    (hc : c ∈ (uptoLast sep t).getLast?) : c = sep := by
  rw [uptoLast, List.getLast?_reverse] at hc
  have hnot := not_of_mem_head?_dropWhile hc
  simpa using hnot

/-- The part after the last separator has none. -/
theorem not_mem_afterLast (sep : Char) (t : Text) : sep ∉ afterLast sep t := by
  intro hmem
  have hne := List.mem_takeWhile_imp (List.mem_reverse.1 hmem)
  simp at hne

/-- The last separator divides a text in one way only. -/
theorem uptoLast_append {sep : Char} {s t : Text} (hs : ∀ c ∈ s.getLast?, c = sep)
    (ht : sep ∉ t) : uptoLast sep (s ++ t) = s := by
  have hrun : ∀ c ∈ t.reverse, decide (c ≠ sep) = true := by
    intro c hc
    have hmem : c ∈ t := List.mem_reverse.1 hc
    exact decide_eq_true fun heq => ht (heq ▸ hmem)
  have hstop : ∀ c ∈ s.reverse.head?, decide (c ≠ sep) = false := by
    rw [List.head?_reverse]
    intro c hc
    simp [hs c hc]
  rw [uptoLast, List.reverse_append, dropWhile_append_stop hrun hstop, List.reverse_reverse]

/-- What stands after the last separator is fixed by it. -/
theorem afterLast_append {sep : Char} {s t : Text} (hs : ∀ c ∈ s.getLast?, c = sep)
    (ht : sep ∉ t) : afterLast sep (s ++ t) = t := by
  have hsplit := uptoLast_append_afterLast sep (s ++ t)
  rw [uptoLast_append hs ht] at hsplit
  exact List.append_cancel_left hsplit

/-- The last piece of a divided text is what stands after the last separator. -/
theorem getLast?_splitOn (sep : Char) (t : Text) :
    (t.splitOn sep).getLast? = some (afterLast sep t) := by
  have hpiece : (afterLast sep t).splitOn sep = [afterLast sep t] :=
    List.splitOn_eq_singleton (not_mem_afterLast sep t)
  rcases List.eq_nil_or_concat (uptoLast sep t) with hnil | ⟨s, c, hconcat⟩
  · have hwhole : afterLast sep t = t := by
      simpa [hnil] using uptoLast_append_afterLast sep t
    rw [hwhole] at hpiece ⊢
    rw [hpiece, List.getLast?_singleton]
  · have hlast : c ∈ (uptoLast sep t).getLast? := by
      simp [hconcat]
    have hsep : c = sep := eq_of_mem_getLast?_uptoLast hlast
    have hdivided : t = s ++ sep :: afterLast sep t := by
      simpa [hconcat, hsep] using (uptoLast_append_afterLast sep t).symm
    have hpieces : t.splitOn sep = s.splitOn sep ++ [afterLast sep t] := by
      rw [← hpiece, ← List.splitOn_append_cons_self, ← hdivided]
    rw [hpieces, List.getLast?_concat]

/-- The first separator divides a text in one way only. -/
theorem cutAtFirst?_eq_some_iff {sep : Char} {t before after : Text} :
    cutAtFirst? sep t = some (before, after) ↔ t = before ++ sep :: after ∧ sep ∉ before := by
  constructor
  · intro h
    refine ⟨append_of_cutAtFirst? h, ?_⟩
    unfold cutAtFirst? at h
    split at h
    · contradiction
    · simp only [Option.some.injEq, Prod.mk.injEq] at h
      obtain ⟨rfl, -⟩ := h
      intro hmem
      have hne := List.mem_takeWhile_imp hmem
      simp at hne
  · rintro ⟨rfl, hnot⟩
    have hrun : ∀ c ∈ before, decide (c ≠ sep) = true := by
      intro c hc
      exact decide_eq_true fun heq => hnot (heq ▸ hc)
    have hstop : ∀ c ∈ (sep :: after).head?, decide (c ≠ sep) = false := by
      simp
    rw [cutAtFirst?, dropWhile_append_stop hrun hstop, takeWhile_append_stop hrun hstop]

/-- Exactly a text without the separator has no cut. -/
theorem cutAtFirst?_eq_none_iff {sep : Char} {t : Text} :
    cutAtFirst? sep t = none ↔ sep ∉ t := by
  constructor
  · intro h hmem
    unfold cutAtFirst? at h
    split at h
    · next hdrop =>
      have hall := List.dropWhile_eq_nil_iff.1 hdrop sep hmem
      simp at hall
    · contradiction
  · intro hnot
    cases hcut : cutAtFirst? sep t with
    | none => rfl
    | some cut =>
        have hmem : sep ∈ t := by
          rw [append_of_cutAtFirst? hcut]
          simp
        exact absurd hmem hnot

end Text

end BranchLabels
