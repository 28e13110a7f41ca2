import BranchLabels.Proofs.Run
import BranchLabels.Proofs.Text.Lines

/-!
# Lines of octets

A listing may hold octets that are no text.  An octet of the first 128 ends whatever
sequence is open and is read as itself, and no longer sequence is read as a line feed or
as a carriage return.  So lines end in the octets where they end in the text that the
octets are read as: the reader starts afresh with each line, and no octet of a line has
an effect on another line.

Main results:

- Theorem `decode_append_lineFeed`: octets before and after a line feed are read apart.
- Theorem `exists_wide_after`: a line feed or a carriage return in the text is one in the
  octets.
- Theorem `lines_decode`: the lines of the text are read from the lines of the octets.
- Theorem `octets_stay_in_their_line`: octets of one line do not disturb the others.
-/

namespace BranchLabels

namespace Utf8

/-! ## Octets of the first 128 -/

/-- Octets before and after one of the first 128 are read apart. -/
theorem decodeFrom_append_ascii (state : State) (x : List UInt8) {b : UInt8}
    (hb : b.toNat < 0x80) (y : List UInt8) :
    decodeFrom state (x ++ b :: y) =
      decodeFrom state x ++ Char.ofNat b.toNat :: decode y := by
  induction x generalizing state with
  | nil =>
      have hstep := step_ascii state hb
      simp only [List.nil_append, decodeFrom, hstep, decode, List.append_assoc,
        List.singleton_append]
  | cons c x ih => rw [List.cons_append, decodeFrom, ih, decodeFrom, List.append_assoc]

/-- Octets before and after a line feed are read apart. -/
theorem decode_append_lineFeed (x y : List UInt8) :
    decode (x ++ 0x0A :: y) = decode x ++ '\n' :: decode y :=
  decodeFrom_append_ascii none x (by decide) y

/-- A carriage return is read as itself, whatever stands before it. -/
theorem decode_append_carriageReturn (x : List UInt8) :
    decode (x ++ [0x0D]) = decode x ++ ['\r'] :=
  decodeFrom_append_ascii none x (by decide) []

/-! ## Where line ends come from -/

/-- A character that belongs to the end of a line. -/
def IsLineEnd (c : Char) : Prop :=
  c = '\n' ∨ c = '\r'

/-- The least code point that an open sequence may end as. -/
def OpenSequence.least (s : OpenSequence) : Nat :=
  s.bits * 0x40 ^ (s.more + 1) + (s.low - 0x80) * 0x40 ^ s.more

/-- The sequence being read does not end as one of the first 128 characters. -/
def Wide (state : State) : Prop :=
  ∀ s ∈ state, 0x80 ≤ s.least

theorem wide_none : Wide none := by
  simp [Wide]

theorem wide_some {s : OpenSequence} : Wide (some s) ↔ 0x80 ≤ s.least := by
  simp [Wide]

theorem IsLineEnd.toNat_lt {c : Char} (h : IsLineEnd c) : 0 < c.toNat ∧ c.toNat < 0x80 := by
  rcases h with rfl | rfl
  · decide
  · decide

theorem not_isLineEnd_replacement : ¬ IsLineEnd replacement := by
  intro h
  exact absurd h.toNat_lt.2 (by decide)

/-- A number is the code point of its character, unless there is none. -/
theorem toNat_ofNat_eq_or (n : Nat) :
    (Char.ofNat n).toNat = n ∨ (Char.ofNat n).toNat = 0 ∧ 0x80 ≤ n := by
  by_cases hvalid : n.isValidChar
  · left
    rw [Char.ofNat, dif_pos hvalid]
    rfl
  · right
    rw [Char.ofNat, dif_neg hvalid]
    refine ⟨rfl, ?_⟩
    by_contra hlt
    exact hvalid (.inl (by omega))

/-- A code point beyond the first 128 is that of no line end. -/
theorem not_isLineEnd_ofNat {n : Nat} (h : 0x80 ≤ n) : ¬ IsLineEnd (Char.ofNat n) := by
  intro hend
  have hlt := hend.toNat_lt
  have hvalue := toNat_ofNat_eq_or n
  omega

/-- The first octet of a sequence and the range of the second leave out overlong
forms. -/
theorem least_of_start {b : UInt8} {s : OpenSequence} :
    start b = .sequence s → 0x80 ≤ s.least := by
  fun_cases start b
  all_goals
    intro h
    first
    | contradiction
    | obtain rfl := Start.sequence.inj h
      simp only [OpenSequence.least, OpenSequence.plain]
      omega

/-- Only octets of the first 128 are read as themselves. -/
theorem eq_ofNat_of_start {b : UInt8} {c : Char} :
    start b = .char c → c = Char.ofNat b.toNat ∧ b.toNat < 0x80 := by
  fun_cases start b with
  | case1 n hlt =>
      intro h
      exact ⟨(Start.char.inj h).symm, hlt⟩
  | _ => exact fun h => nomatch h

/-- What an octet does to the ends of lines: a sequence that it leaves open is wide, and
a line end that it completes is the octet itself. -/
structure KeepsLineEnds (b : UInt8) (result : Text × State) : Prop where
  wide : Wide result.2
  toNat_eq : ∀ c ∈ result.1, IsLineEnd c → c.toNat = b.toNat

theorem keepsLineEnds_stepFresh (b : UInt8) : KeepsLineEnds b (stepFresh b) := by
  unfold stepFresh
  split
  · next c hc =>
    refine ⟨wide_none, ?_⟩
    intro d hd hend
    obtain ⟨hchar, hlt⟩ := eq_ofNat_of_start hc
    rw [List.mem_singleton.1 hd, hchar]
    have hvalue := toNat_ofNat_eq_or b.toNat
    omega
  · next s hs => exact ⟨wide_some.2 (least_of_start hs), by simp⟩
  · refine ⟨wide_none, ?_⟩
    intro d hd hend
    obtain rfl := List.mem_singleton.1 hd
    exact absurd hend not_isLineEnd_replacement

/-- The bits of a wide sequence stay wide with the bits of the next octet. -/
theorem le_bits_of_wide {s : OpenSequence} (h : Wide (some s)) {n : Nat} (hlow : s.low ≤ n) :
    0x80 ≤ (s.bits * 0x40 + (n - 0x80)) * 0x40 ^ s.more := by
  have hoctet : s.low - 0x80 ≤ n - 0x80 := Nat.sub_le_sub_right hlow 0x80
  calc 0x80 ≤ s.bits * 0x40 ^ (s.more + 1) + (s.low - 0x80) * 0x40 ^ s.more := wide_some.1 h
    _ ≤ s.bits * 0x40 ^ (s.more + 1) + (n - 0x80) * 0x40 ^ s.more :=
      Nat.add_le_add_left (Nat.mul_le_mul_right _ hoctet) _
    _ = (s.bits * 0x40 + (n - 0x80)) * 0x40 ^ s.more := by
      rw [Nat.pow_succ, Nat.add_mul, Nat.mul_assoc, Nat.mul_comm 0x40]

theorem keepsLineEnds_step {state : State} (h : Wide state) (b : UInt8) :
    KeepsLineEnds b (step state b) := by
  obtain ⟨hfresh, hmem⟩ := keepsLineEnds_stepFresh b
  cases state with
  | none => exact ⟨hfresh, hmem⟩
  | some s =>
      rw [step]
      split
      · next hrange =>
        have hbits := le_bits_of_wide h hrange.1
        dsimp only
        split
        · next hmore =>
          refine ⟨wide_none, ?_⟩
          intro c hc hend
          rw [List.mem_singleton.1 hc] at hend
          rw [hmore, Nat.pow_zero, Nat.mul_one] at hbits
          exact absurd hend (not_isLineEnd_ofNat hbits)
        · next more hmore =>
          rw [hmore] at hbits
          refine ⟨wide_some.2 ?_, by simp⟩
          simpa [OpenSequence.least, OpenSequence.plain] using hbits
      · refine ⟨hfresh, ?_⟩
        intro c hc hend
        rcases List.mem_cons.1 hc with rfl | hc
        · exact absurd hend not_isLineEnd_replacement
        · exact hmem c hc hend

/-- Reading some octets writes a text and leaves a state from which the rest is read.  A
line end of that text is one of the octets. -/
theorem exists_wide_after (x : List UInt8) {state : State} (h : Wide state) :
    ∃ t after, Wide after ∧ (∀ y, decodeFrom state (x ++ y) = t ++ decodeFrom after y) ∧
      ∀ c ∈ t, IsLineEnd c → ∃ b ∈ x, b.toNat = c.toNat := by
  induction x generalizing state with
  | nil => exact ⟨[], state, h, fun y => rfl, by simp⟩
  | cons b x ih =>
      have hstep := keepsLineEnds_step h b
      obtain ⟨t, after, hafter, hread, hmem⟩ := ih hstep.wide
      refine ⟨(step state b).1 ++ t, after, hafter, ?_, ?_⟩
      · intro y
        rw [List.cons_append, decodeFrom, hread, List.append_assoc]
      · intro c hc hend
        rcases List.mem_append.1 hc with hc | hc
        · exact ⟨b, List.mem_cons_self, (hstep.toNat_eq c hc hend).symm⟩
        · obtain ⟨d, hd, heq⟩ := hmem c hc hend
          exact ⟨d, List.mem_cons_of_mem _ hd, heq⟩

/-- A line end in the text is one in the octets. -/
theorem exists_octet_of_mem_decodeFrom {state : State} (h : Wide state) {bs : List UInt8}
    {c : Char} (hc : c ∈ decodeFrom state bs) (hend : IsLineEnd c) :
    ∃ b ∈ bs, b.toNat = c.toNat := by
  obtain ⟨t, after, -, hread, hmem⟩ := exists_wide_after bs h
  have hall : decodeFrom state bs = t ++ finish after := by
    simpa [decodeFrom] using hread []
  rw [hall] at hc
  rcases List.mem_append.1 hc with hc | hc
  · exact hmem c hc hend
  · cases after with
    | none => simp [finish] at hc
    | some s =>
        rw [List.mem_singleton.1 hc] at hend
        exact absurd hend not_isLineEnd_replacement

/-- Octets without a line feed are read as a text without one. -/
theorem lineFeed_not_mem_decode {bs : List UInt8} (h : 0x0A ∉ bs) : '\n' ∉ decode bs := by
  intro hmem
  obtain ⟨b, hb, heq⟩ := exists_octet_of_mem_decodeFrom wide_none hmem (.inl rfl)
  have hfeed : b = 0x0A := UInt8.toNat_inj.1 heq
  exact h (hfeed ▸ hb)

/-! ## The last octet -/

/-- An octet completes a character or leaves a sequence open. -/
theorem step_ne (state : State) (b : UInt8) : (step state b).1 ≠ [] ∨ (step state b).2 ≠ none := by
  have hfresh : (stepFresh b).1 ≠ [] ∨ (stepFresh b).2 ≠ none := by
    unfold stepFresh
    split <;> simp
  cases state with
  | none => exact hfresh
  | some s =>
      rw [step]
      split
      · dsimp only
        split <;> simp
      · simp

/-- Only no octets at all are read as the empty text. -/
theorem decodeFrom_eq_nil_iff {state : State} {bs : List UInt8} :
    decodeFrom state bs = [] ↔ state = none ∧ bs = [] := by
  induction bs generalizing state with
  | nil => cases state <;> simp [decodeFrom, finish]
  | cons b bs ih =>
      have hne := step_ne state b
      rw [decodeFrom, List.append_eq_nil_iff, ih]
      simp only [reduceCtorEq, and_false, iff_false]
      rintro ⟨htext, hstate, -⟩
      exact hne.elim (· htext) (· hstate)

/-- The text ends with a carriage return only when the octets do. -/
theorem getLast?_of_getLast?_decode {bs : List UInt8}
    (h : (decode bs).getLast? = some '\r') : bs.getLast? = some 0x0D := by
  rcases List.eq_nil_or_concat' bs with rfl | ⟨x, b, rfl⟩
  · simp [decode, decodeFrom, finish] at h
  · obtain ⟨t, after, hafter, hread, -⟩ := exists_wide_after x wide_none
    have hne : decodeFrom after [b] ≠ [] := by
      simp [decodeFrom_eq_nil_iff]
    have hlast : (decodeFrom after [b]).getLast? = some '\r' := by
      rw [decode, hread, List.getLast?_append_of_ne_nil t hne] at h
      exact h
    obtain ⟨d, hd, heq⟩ :=
      exists_octet_of_mem_decodeFrom hafter (List.mem_of_getLast? hlast) (.inr rfl)
    have hreturn : d = 0x0D := UInt8.toNat_inj.1 heq
    rw [List.getLast?_concat, ← List.mem_singleton.1 hd, hreturn]

/-! ## Lines -/

/-- Octets less one carriage return at their end. -/
def dropCarriageReturn (bs : List UInt8) : List UInt8 :=
  if bs.getLast? = some 0x0D then bs.dropLast else bs

/-- The lines of octets.  A line feed ends a line and takes one carriage return directly
before it along; what follows the last line feed is a line of its own unless it is
empty. -/
def lines (bs : List UInt8) : List (List UInt8) :=
  let pieces := bs.splitOn 0x0A
  pieces.dropLast.map dropCarriageReturn ++ pieces.getLast?.toList.filter (· ≠ [])

/-- It does not matter whether a carriage return is taken off before or after reading. -/
theorem decode_dropCarriageReturn (bs : List UInt8) :
    decode (dropCarriageReturn bs) = Text.dropCarriageReturn (decode bs) := by
  by_cases h : bs.getLast? = some 0x0D
  · obtain ⟨x, rfl⟩ := List.getLast?_eq_some_iff.1 h
    rw [decode_append_carriageReturn, Text.dropCarriageReturn_append, dropCarriageReturn,
      if_pos h, List.dropLast_concat]
  · have hdecode : (decode bs).getLast? ≠ some '\r' := fun hlast =>
      h (getLast?_of_getLast?_decode hlast)
    rw [dropCarriageReturn, if_neg h, Text.dropCarriageReturn_eq_self hdecode]

/-- Octets have a line feed or not, and what follows the first one has fewer. -/
@[elab_as_elim]
theorem lineFeed_induction {motive : List UInt8 → Prop} (last : ∀ p, 0x0A ∉ p → motive p)
    (cut : ∀ p rest, 0x0A ∉ p → motive rest → motive (p ++ 0x0A :: rest)) (bs : List UInt8) :
    motive bs := by
  by_cases h : 0x0A ∈ bs
  · obtain ⟨p, rest, hbs, hp⟩ := List.eq_append_cons_of_mem h
    rw [hbs]
    exact cut p rest hp (lineFeed_induction last cut rest)
  · exact last bs h
termination_by bs.length
decreasing_by simp [hbs]; omega

/-- The pieces between line feeds are read one by one. -/
theorem splitOn_decode (bs : List UInt8) :
    (decode bs).splitOn '\n' = (bs.splitOn 0x0A).map decode := by
  induction bs using lineFeed_induction with
  | last p hp =>
      rw [List.splitOn_eq_singleton hp, List.splitOn_eq_singleton (lineFeed_not_mem_decode hp)]
      rfl
  | cut p rest hp ih =>
      rw [decode_append_lineFeed,
        List.splitOn_append_cons_self_of_not_mem (lineFeed_not_mem_decode hp),
        List.splitOn_append_cons_self_of_not_mem hp, ih]
      rfl

/-- The lines of the text are read from the lines of the octets. -/
theorem lines_decode (bs : List UInt8) : Text.lines (decode bs) = (lines bs).map decode := by
  have hnil : ∀ p : List UInt8, decode p = [] ↔ p = [] := by
    intro p
    rw [decode, decodeFrom_eq_nil_iff]
    simp
  rw [Text.lines, lines, splitOn_decode]
  simp only [List.map_append, ← List.map_dropLast, List.map_map, List.getLast?_map]
  congr 1
  · apply List.map_congr_left
    intro p _
    exact (decode_dropCarriageReturn p).symm
  · cases (bs.splitOn 0x0A).getLast? with
    | none => rfl
    | some p => by_cases hp : p = [] <;> simp [hp, hnil]

/-- A line of octets and those after it are read apart. -/
theorem lines_decode_cut {p : List UInt8} (hp : 0x0A ∉ p) (rest : List UInt8) :
    Text.lines (decode (p ++ 0x0A :: rest)) =
      Text.dropCarriageReturn (decode p) :: Text.lines (decode rest) := by
  rw [decode_append_lineFeed, Text.lines_append_lineFeed (lineFeed_not_mem_decode hp)]

/-- After the first line, octets in the first line do not matter. -/
theorem getElem?_lines_decode_of_first {old new : List UInt8} (hold : 0x0A ∉ old)
    (hnew : 0x0A ∉ new) (after : List UInt8) (i : Nat) :
    (Text.lines (decode (new ++ after)))[i + 1]? =
      (Text.lines (decode (old ++ after)))[i + 1]? := by
  by_cases h : 0x0A ∈ after
  · obtain ⟨q, rest, rfl, hq⟩ := List.eq_append_cons_of_mem h
    have hfirst : ∀ p : List UInt8, 0x0A ∉ p →
        (Text.lines (decode (p ++ (q ++ 0x0A :: rest))))[i + 1]? =
          (Text.lines (decode rest))[i]? := by
      intro p hp
      have hline : 0x0A ∉ p ++ q := by simp [hp, hq]
      rw [← List.append_assoc, lines_decode_cut hline, List.getElem?_cons_succ]
    rw [hfirst new hnew, hfirst old hold]
  · have hnone : ∀ p : List UInt8, 0x0A ∉ p →
        (Text.lines (decode (p ++ after)))[i + 1]? = none := by
      intro p hp
      have hline : 0x0A ∉ p ++ after := by simp [hp, h]
      have hlength := Text.length_lines_le_one (lineFeed_not_mem_decode hline)
      exact List.getElem?_eq_none (by omega)
    rw [hnone new hnew, hnone old hold]

/-- Other octets in one line, none of them a line feed, leave all other lines as they
are. -/
theorem getElem?_lines_decode_of_ne (before : List UInt8) {old new : List UInt8}
    (hold : 0x0A ∉ old) (hnew : 0x0A ∉ new) (after : List UInt8) {i : Nat}
    (hi : i ≠ before.count 0x0A) :
    (Text.lines (decode (before ++ new ++ after)))[i]? =
      (Text.lines (decode (before ++ old ++ after)))[i]? := by
  induction before using lineFeed_induction generalizing i with
  | last p hp =>
      rw [List.count_eq_zero.2 hp] at hi
      obtain ⟨j, rfl⟩ := Nat.exists_eq_succ_of_ne_zero hi
      exact getElem?_lines_decode_of_first (by simp [hp, hold]) (by simp [hp, hnew]) after j
  | cut p rest hp ih =>
      simp only [List.append_assoc, List.cons_append, lines_decode_cut hp]
      cases i with
      | zero => rfl
      | succ i =>
          have hrest : i ≠ rest.count 0x0A := by
            rw [List.count_append, List.count_eq_zero.2 hp, List.count_cons_self] at hi
            omega
          simpa using ih hrest

/-- What stands before and after a line feed is read apart.  So a listing in a file has
the lines that are read from the lines of its octets, and other octets in one line, none
of them a line feed, change neither another line nor what that line is read as. -/
theorem octets_stay_in_their_line :
    (∀ x y : List UInt8, decode (x ++ [0x0A] ++ y) = decode x ++ ['\n'] ++ decode y) ∧
    (∀ (s : Store) (path : Text) (bs : List UInt8), s.read path = .ok bs →
      ∃ text, s.exec (readListing path) = (.ok text, s) ∧
        Text.lines text = (lines bs).map decode ∧
        Listing.ofText text = Listing.ofLines ((lines bs).map decode)) ∧
    (∀ before old new after : List UInt8, 0x0A ∉ old → 0x0A ∉ new →
      ∀ i ≠ before.count 0x0A,
        let was := Text.lines (decode (before ++ old ++ after))
        let now := Text.lines (decode (before ++ new ++ after))
        now[i]? = was[i]? ∧
          now[i]?.map (Instruction.read (i + 1)) = was[i]?.map (Instruction.read (i + 1))) := by
  refine ⟨?_, ?_, ?_⟩
  · intro x y
    simpa using decode_append_lineFeed x y
  · intro s path bs hread
    refine ⟨decode bs, ?_, lines_decode bs, ?_⟩
    · rw [Store.exec_readListing, hread]
    · rw [Listing.ofText, lines_decode]
  · intro before old new after hold hnew i hi was now
    have hline : now[i]? = was[i]? := getElem?_lines_decode_of_ne before hold hnew after hi
    exact ⟨hline, by rw [hline]⟩

/-- A store with a listing whose second line breaks off inside a character. -/
def brokenStore : Store :=
  Store.fresh.put ("in".toList :: Store.fresh.current)
    (.file ([0x3B, 0x0A] ++ [0xE2, 0x82] ++ [0x0D, 0x0A, 0xC3, 0xA9]))

/-- The broken character is one replacement character of its own line, and the line after
it is read the same when the octets are mended. -/
theorem octets_stay_in_their_line_sample :
    (∃ text, brokenStore.exec (readListing "in".toList) = (.ok text, brokenStore) ∧
      Text.lines text = [[';'], [replacement], ['é']]) ∧
    (Text.lines (decode ([0x3B, 0x0A] ++ [0xE2, 0x82, 0xAC] ++ [0x0D, 0x0A, 0xC3, 0xA9])))[2]? =
      some ['é'] := by
  obtain ⟨-, hfile, hother⟩ := octets_stay_in_their_line
  have hread : brokenStore.read "in".toList =
      .ok ([0x3B, 0x0A] ++ [0xE2, 0x82] ++ [0x0D, 0x0A, 0xC3, 0xA9]) := by
    decide +kernel
  constructor
  · obtain ⟨text, htext, hlines, -⟩ := hfile brokenStore "in".toList _ hread
    exact ⟨text, htext, hlines.trans (by decide +kernel)⟩
  · have hline := hother [0x3B, 0x0A] [0xE2, 0x82] [0xE2, 0x82, 0xAC] [0x0D, 0x0A, 0xC3, 0xA9]
      (by decide) (by decide) 2 (by decide)
    exact hline.1.trans (by decide +kernel)

end Utf8

end BranchLabels
