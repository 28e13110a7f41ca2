/-!
# Texts and where they may be cut

A text is its list of characters, so that every cut of a text is a decomposition
of a list.  Positions that are shown to the outside count bytes of the UTF-8
form; `byteLength` measures them and `cutAtByte?` cuts there.

Main results:

- Theorem `cutAtByte?_append`: a text can be cut after each of its initial
  segments.
- Theorem `append_of_cutAtByte?`: a cut loses nothing and stands at the byte it
  was asked for.
- Theorem `exists_cutAtByte?_iff`: a text can be cut exactly at the boundaries of
  its characters.
-/

namespace BranchLabels

/-- A text is its list of characters. -/
abbrev Text := List Char

namespace Text

/-! ## Byte positions -/

/-- The number of bytes of a text in UTF-8. -/
def byteLength : Text → Nat
  | [] => 0
  | c :: t => c.utf8Size + byteLength t

/-- Cut a text after its first `n` bytes.  There is no cut beyond the end
of the text and none inside a character. -/
def cutAtByte? : Nat → Text → Option (Text × Text)
  | 0, t => some ([], t)
  | _ + 1, [] => none
  | n + 1, c :: t =>
      if c.utf8Size ≤ n + 1 then
        (cutAtByte? (n + 1 - c.utf8Size) t).map fun cut => (c :: cut.1, cut.2)
      else none

@[simp] theorem byteLength_nil : byteLength [] = 0 := rfl

@[simp] theorem byteLength_cons (c : Char) (t : Text) :
    byteLength (c :: t) = c.utf8Size + byteLength t := rfl

@[simp] theorem byteLength_append (s t : Text) :
    byteLength (s ++ t) = byteLength s + byteLength t := by
  induction s with
  | nil => simp
  | cons c s ih => simp [ih, Nat.add_assoc]

/-- A text can be cut after each of its initial segments. -/
@[simp] theorem cutAtByte?_append (s t : Text) :
    cutAtByte? (byteLength s) (s ++ t) = some (s, t) := by
  induction s with
  | nil => cases t <;> rfl
  | cons c s ih =>
      have hpos : 0 < c.utf8Size := c.utf8Size_pos
      obtain ⟨n, hn⟩ : ∃ n, byteLength (c :: s) = n + 1 :=
        ⟨byteLength (c :: s) - 1, by rw [byteLength_cons]; omega⟩
      have hrest : n + 1 - c.utf8Size = byteLength s := by
        rw [← hn, byteLength_cons]; omega
      have hle : c.utf8Size ≤ n + 1 := by
        rw [← hn, byteLength_cons]; omega
      rw [hn, List.cons_append, cutAtByte?, if_pos hle, hrest, ih]
      rfl

/-- A cut loses nothing and stands at the byte it was asked for. -/
theorem append_of_cutAtByte? {n : Nat} {t before after : Text}
    (h : cutAtByte? n t = some (before, after)) :
    t = before ++ after ∧ byteLength before = n := by
  induction t generalizing n before with
  | nil =>
      cases n with
      | zero => simp_all [cutAtByte?]
      | succ n => simp [cutAtByte?] at h
  | cons c t ih =>
      cases n with
      | zero =>
          simp only [cutAtByte?, Option.some.injEq, Prod.mk.injEq] at h
          obtain ⟨rfl, rfl⟩ := h
          exact ⟨rfl, rfl⟩
      | succ n =>
          rw [cutAtByte?] at h
          split at h
          · next hle =>
            obtain ⟨⟨s, r⟩, hcut, hpair⟩ := Option.map_eq_some_iff.1 h
            simp only [Prod.mk.injEq] at hpair
            obtain ⟨rfl, rfl⟩ := hpair
            obtain ⟨rfl, hlen⟩ := ih hcut
            refine ⟨rfl, ?_⟩
            rw [byteLength_cons, hlen]
            omega
          · simp at h

/-- A text can be cut after `n` bytes: it has as many, and they end with a
character. -/
def IsBoundary (t : Text) (n : Nat) : Prop :=
  ∃ before after, t = before ++ after ∧ byteLength before = n

/-- Texts are cut exactly at the boundaries of their characters. -/
theorem exists_cutAtByte?_iff {n : Nat} {t : Text} :
    (∃ cut, cutAtByte? n t = some cut) ↔ IsBoundary t n := by
  constructor
  · rintro ⟨⟨before, after⟩, hcut⟩
    exact ⟨before, after, append_of_cutAtByte? hcut⟩
  · rintro ⟨before, after, rfl, rfl⟩
    exact ⟨_, cutAtByte?_append before after⟩

/-- No boundary lies beyond the end. -/
theorem IsBoundary.le_byteLength {t : Text} {n : Nat} (h : IsBoundary t n) :
    n ≤ byteLength t := by
  obtain ⟨before, after, rfl, rfl⟩ := h
  rw [byteLength_append]
  exact Nat.le_add_right _ _

/-- The boundaries of a text after another text are its own, moved. -/
theorem isBoundary_append_iff {s t : Text} {n : Nat} :
    IsBoundary (s ++ t) (byteLength s + n) ↔ IsBoundary t n := by
  constructor
  · rintro ⟨before, after, happend, hlength⟩
    obtain ⟨mid, rfl, rfl⟩ | ⟨mid, rfl, rfl⟩ := List.append_eq_append_iff.1 happend
    · rw [byteLength_append] at hlength
      exact ⟨mid, after, rfl, Nat.add_left_cancel hlength⟩
    · -- A cut inside of the first text is at its very end.
      rw [byteLength_append] at hlength
      have hn : n = 0 := by omega
      exact ⟨[], t, rfl, hn.symm⟩
  · rintro ⟨before, after, rfl, rfl⟩
    exact ⟨s ++ before, after, (List.append_assoc ..).symm, byteLength_append ..⟩

/-! ## Cutting at characters -/

/-- The texts before and after the first `sep`, if there is one. -/
def cutAtFirst? (sep : Char) (t : Text) : Option (Text × Text) :=
  match t.dropWhile (· ≠ sep) with
  | [] => none
  | _ :: after => some (t.takeWhile (· ≠ sep), after)

/-- A cut at a character loses nothing but that character. -/
theorem append_of_cutAtFirst? {sep : Char} {t before after : Text}
    (h : cutAtFirst? sep t = some (before, after)) : t = before ++ sep :: after := by
  unfold cutAtFirst? at h
  split at h
  · simp at h
  · next c rest hdrop =>
    simp only [Option.some.injEq, Prod.mk.injEq] at h
    obtain ⟨rfl, rfl⟩ := h
    have hsep : c = sep := by
      have := List.head?_dropWhile_not (· ≠ sep) t
      rw [hdrop] at this
      simpa using this
    rw [← hsep, ← hdrop, hsep, List.takeWhile_append_dropWhile]

/-- The part of a text up to and including its last `sep`; empty when there
is none. -/
def uptoLast (sep : Char) (t : Text) : Text :=
  (t.reverse.dropWhile (· ≠ sep)).reverse

/-- The part of a text after its last `sep`; the whole text when there is
none. -/
def afterLast (sep : Char) (t : Text) : Text :=
  (t.reverse.takeWhile (· ≠ sep)).reverse

/-- The last `sep` divides a text without loss. -/
@[simp] theorem uptoLast_append_afterLast (sep : Char) (t : Text) :
    uptoLast sep t ++ afterLast sep t = t := by
  rw [uptoLast, afterLast, ← List.reverse_append, List.takeWhile_append_dropWhile,
    List.reverse_reverse]

/-! ## Lines -/

/-- A text less one carriage return at its end. -/
def dropCarriageReturn (t : Text) : Text :=
  if t.getLast? = some '\r' then t.dropLast else t

/-- The lines of a text.  A line feed ends a line and takes one carriage return
directly before it along; what follows the last line feed is a line of its own
unless it is empty. -/
def lines (t : Text) : List Text :=
  let pieces := t.splitOn '\n'
  pieces.dropLast.map dropCarriageReturn ++ pieces.getLast?.toList.filter (· ≠ [])

/-- The text in which each of the given lines is ended by a line feed. -/
def unlines (ls : List Text) : Text :=
  ls.flatMap (· ++ ['\n'])

end Text

end BranchLabels
