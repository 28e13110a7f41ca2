import BranchLabels.Text.Basic

/-!
# Lines that are written and read again

A text whose lines are each ended by a line feed has those lines, except that a
carriage return at the end of a line is taken for a part of its line end.

Main results:

- Theorem `lines_append_lineFeed`: the first line feed ends the first line.
- Theorem `lines_unlines`: written lines are read back, less one carriage return
  at the end of each.
- Theorem `count_lineFeed_unlines`: a written text has a line feed for each line.
- Theorem `lineFeed_not_mem_of_mem_lines`: no line holds a line feed.
-/

namespace BranchLabels

namespace Text

/-! ## Carriage returns -/

/-- A carriage return at the end is taken off. -/
@[simp] theorem dropCarriageReturn_append (t : Text) :
    dropCarriageReturn (t ++ ['\r']) = t := by
  simp [dropCarriageReturn]

/-- A text that ends otherwise stays as it is. -/
theorem dropCarriageReturn_eq_self {t : Text} (h : t.getLast? ≠ some '\r') :
    dropCarriageReturn t = t :=
  if_neg h

/-- A text differs from what is left of it by at most one carriage return. -/
theorem eq_dropCarriageReturn_or (t : Text) :
    t = dropCarriageReturn t ∨ t = dropCarriageReturn t ++ ['\r'] := by
  by_cases h : t.getLast? = some '\r'
  · right
    obtain ⟨s, rfl⟩ := List.getLast?_eq_some_iff.1 h
    rw [dropCarriageReturn_append]
  · left
    exact (dropCarriageReturn_eq_self h).symm

/-- Lines without carriage returns at their ends stay as they are. -/
theorem map_dropCarriageReturn_eq_self {ls : List Text}
    (h : ∀ l ∈ ls, dropCarriageReturn l = l) : ls.map dropCarriageReturn = ls :=
  (List.map_congr_left h).trans (List.map_id ls)

/-- What is left of a text is an initial segment of it. -/
theorem mem_of_mem_dropCarriageReturn {c : Char} {t : Text}
    (hc : c ∈ dropCarriageReturn t) : c ∈ t := by
  rcases eq_dropCarriageReturn_or t with h | h
  · exact h ▸ hc
  · rw [h]
    exact List.mem_append_left _ hc

/-! ## Reading written lines -/

@[simp] theorem unlines_cons (l : Text) (ls : List Text) :
    unlines (l :: ls) = l ++ '\n' :: unlines ls := by
  simp [unlines]

/-- The first line feed ends the first line. -/
theorem lines_append_lineFeed {l : Text} (h : '\n' ∉ l) (t : Text) :
    lines (l ++ '\n' :: t) = dropCarriageReturn l :: lines t := by
  have hpieces : (l ++ '\n' :: t).splitOn '\n' = l :: t.splitOn '\n' :=
    List.splitOn_append_cons_self_of_not_mem h t
  obtain ⟨p, ps, hp⟩ := List.exists_cons_of_ne_nil (List.splitOn_ne_nil '\n' t)
  rw [lines, lines, hpieces, hp]
  simp [List.getLast?_cons_cons]

/-- A text without a line feed is one line at most. -/
theorem length_lines_le_one {t : Text} (h : '\n' ∉ t) : (lines t).length ≤ 1 := by
  rw [lines, List.splitOn_eq_singleton h]
  exact List.length_filter_le _ _

/-- Written lines are read back, less one carriage return at the end of each. -/
theorem lines_unlines {ls : List Text} (h : ∀ l ∈ ls, '\n' ∉ l) :
    lines (unlines ls) = ls.map dropCarriageReturn := by
  induction ls with
  | nil => rfl
  | cons l ls ih =>
      have hl : '\n' ∉ l := h l List.mem_cons_self
      have hls : ∀ k ∈ ls, '\n' ∉ k := fun k hk => h k (List.mem_cons_of_mem _ hk)
      rw [unlines_cons, lines_append_lineFeed hl, ih hls, List.map_cons]

/-- A text whose lines are ended by line feeds has one for each line. -/
theorem count_lineFeed_unlines {ls : List Text} (h : ∀ l ∈ ls, '\n' ∉ l) :
    (unlines ls).count '\n' = ls.length := by
  induction ls with
  | nil => rfl
  | cons l ls ih =>
      have hl : l.count '\n' = 0 := List.count_eq_zero.2 (h l List.mem_cons_self)
      have hls := ih fun k hk => h k (List.mem_cons_of_mem _ hk)
      rw [unlines_cons, List.count_append, List.count_cons_self, hl, hls, List.length_cons]
      omega

/-- No piece of a split text holds the separator. -/
theorem not_mem_of_mem_splitOn {sep : Char} {t p : Text} (hp : p ∈ t.splitOn sep) :
    sep ∉ p := by
  induction t generalizing p with
  | nil =>
      rw [List.splitOn_nil, List.mem_singleton] at hp
      simp [hp]
  | cons c t ih =>
      rw [List.splitOn_cons_eq_if_modifyHead] at hp
      obtain ⟨q, qs, hq⟩ := List.exists_cons_of_ne_nil (List.splitOn_ne_nil sep t)
      split at hp
      · rcases List.mem_cons.1 hp with rfl | hp
        · simp
        · exact ih hp
      · next hne =>
        rw [hq, List.modifyHead_cons] at hp
        rcases List.mem_cons.1 hp with rfl | hp
        · have hsep : sep ≠ c := by
            rintro rfl
            exact hne (BEq.refl sep)
          have hrest : sep ∉ q := ih (hq ▸ List.mem_cons_self)
          simp [hsep, hrest]
        · exact ih (hq ▸ List.mem_cons_of_mem _ hp)

/-- No line holds a line feed. -/
theorem lineFeed_not_mem_of_mem_lines {t l : Text} (hl : l ∈ lines t) : '\n' ∉ l := by
  rcases List.mem_append.1 hl with hl | hl
  · obtain ⟨p, hp, rfl⟩ := List.mem_map.1 hl
    intro hmem
    exact not_mem_of_mem_splitOn ((List.dropLast_sublist _).subset hp)
      (mem_of_mem_dropCarriageReturn hmem)
  · have hlast : l ∈ (t.splitOn '\n').getLast? := by
      simpa using (List.mem_filter.1 hl).1
    exact not_mem_of_mem_splitOn (List.mem_of_getLast? hlast)

end Text

end BranchLabels
