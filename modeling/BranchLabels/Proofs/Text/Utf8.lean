import BranchLabels.Text.Utf8

/-!
# Texts that are written and read as octets

The octets of a character take the reader from between two characters to between two
characters, and what it writes on the way is that character.  The first octet opens a
sequence whose range for the second octet leaves out overlong forms, surrogates and
values beyond the last code point.  No character has such a form, so the second octet of
a character always lies in that range.

Main results:

- Theorem `decodeFrom_encodeChar`: the octets of a character are read as that character,
  whatever follows.
- Theorem `decode_encode`: a text that is written as octets is read back.
-/

namespace BranchLabels

namespace Utf8

theorem toNat_octet {n : Nat} (h : n < 256) : (octet n).toNat = n :=
  UInt8.toNat_ofNat_of_lt' h

/-! ## Octets that continue a sequence -/

/-- An octet in the range of an open sequence in which more are due adds its six bits. -/
theorem decodeFrom_some_of_succ {s : OpenSequence} {r more : Nat} (hr : r < 0x40)
    (hlow : s.low ≤ 0x80 + r) (hhigh : 0x80 + r ≤ s.high) (hmore : s.more = more + 1)
    (bs : List UInt8) :
    decodeFrom (some s) (octet (0x80 + r) :: bs) =
      decodeFrom (some (.plain (s.bits * 0x40 + r) more)) bs := by
  rw [decodeFrom, step, toNat_octet (by omega), if_pos ⟨hlow, hhigh⟩, hmore,
    Nat.add_sub_cancel_left]
  rfl

/-- An octet in the range of an open sequence in which no more are due completes a
character. -/
theorem decodeFrom_some_of_zero {s : OpenSequence} {r : Nat} (hr : r < 0x40)
    (hlow : s.low ≤ 0x80 + r) (hhigh : 0x80 + r ≤ s.high) (hmore : s.more = 0)
    (bs : List UInt8) :
    decodeFrom (some s) (octet (0x80 + r) :: bs) =
      Char.ofNat (s.bits * 0x40 + r) :: decodeFrom none bs := by
  rw [decodeFrom, step, toNat_octet (by omega), if_pos ⟨hlow, hhigh⟩, hmore,
    Nat.add_sub_cancel_left]
  rfl

/-- Any octet with two leading bits `10` is in the range of a plain sequence. -/
theorem le_high_plain {r : Nat} (hr : r < 0x40) (bits more : Nat) :
    0x80 + r ≤ (OpenSequence.plain bits more).high := by
  show 0x80 + r ≤ 0xBF
  omega

/-- Six more bits in a plain sequence. -/
theorem decodeFrom_plain_succ {r : Nat} (hr : r < 0x40) (bits more : Nat) (bs : List UInt8) :
    decodeFrom (some (.plain bits (more + 1))) (octet (0x80 + r) :: bs) =
      decodeFrom (some (.plain (bits * 0x40 + r) more)) bs :=
  decodeFrom_some_of_succ hr (Nat.le_add_right 0x80 r) (le_high_plain hr _ _) rfl bs

/-- The last six bits in a plain sequence. -/
theorem decodeFrom_plain_zero {r : Nat} (hr : r < 0x40) (bits : Nat) (bs : List UInt8) :
    decodeFrom (some (.plain bits 0)) (octet (0x80 + r) :: bs) =
      Char.ofNat (bits * 0x40 + r) :: decodeFrom none bs :=
  decodeFrom_some_of_zero hr (Nat.le_add_right 0x80 r) (le_high_plain hr _ _) rfl bs

/-! ## Octets that open a sequence -/

/-- The octet `n` opens a sequence with given bits.  An octet with the six bits `r` may
follow, and more octets are due after that one. -/
def Opens (n bits r more : Nat) : Prop :=
  ∃ s, start (octet n) = .sequence s ∧ s.bits = bits ∧ s.low ≤ 0x80 + r ∧
    0x80 + r ≤ s.high ∧ s.more = more

theorem decodeFrom_none_of_start {n : Nat} {s : OpenSequence}
    (h : start (octet n) = .sequence s) (bs : List UInt8) :
    decodeFrom none (octet n :: bs) = decodeFrom (some s) bs := by
  rw [decodeFrom, step, stepFresh, h]
  rfl

/-- The first two octets of a sequence that is not over then. -/
theorem Opens.decodeFrom_of_succ {n bits r more : Nat} (h : Opens n bits r (more + 1))
    (hr : r < 0x40) (bs : List UInt8) :
    decodeFrom none (octet n :: octet (0x80 + r) :: bs) =
      decodeFrom (some (.plain (bits * 0x40 + r) more)) bs := by
  obtain ⟨s, hstart, rfl, hlow, hhigh, hmore⟩ := h
  rw [decodeFrom_none_of_start hstart, decodeFrom_some_of_succ hr hlow hhigh hmore]

/-- The two octets of a sequence that is over then. -/
theorem Opens.decodeFrom_of_zero {n bits r : Nat} (h : Opens n bits r 0) (hr : r < 0x40)
    (bs : List UInt8) :
    decodeFrom none (octet n :: octet (0x80 + r) :: bs) =
      Char.ofNat (bits * 0x40 + r) :: decodeFrom none bs := by
  obtain ⟨s, hstart, rfl, hlow, hhigh, hmore⟩ := h
  rw [decodeFrom_none_of_start hstart, decodeFrom_some_of_zero hr hlow hhigh hmore]

/-- The first octet of two. -/
theorem opens_two {q r : Nat} (hlong : 2 ≤ q) (hq : q < 0x20) (hr : r < 0x40) :
    Opens (0xC0 + q) q r 0 := by
  refine ⟨.plain q 0, ?_, rfl, Nat.le_add_right 0x80 r, le_high_plain hr _ _, rfl⟩
  unfold start
  rw [toNat_octet (by omega)]
  dsimp only
  rw [if_neg (by omega), if_neg (by omega), if_pos (by omega), Nat.add_sub_cancel_left]

/-- The first octet of three, when the second one is neither that of an overlong form
nor that of a surrogate. -/
theorem opens_three {q r : Nat} (hq : q < 0x10) (hr : r < 0x40) (hlong : q = 0 → 0x20 ≤ r)
    (hsurrogate : q = 0xD → r < 0x20) : Opens (0xE0 + q) q r 1 := by
  by_cases hzero : q = 0
  · subst hzero
    have hlow : 0xA0 ≤ 0x80 + r := Nat.add_le_add_left (hlong rfl) 0x80
    exact ⟨⟨0, 0xA0, 0xBF, 1, by decide⟩, rfl, rfl, hlow, le_high_plain hr 0 1, rfl⟩
  by_cases hthirteen : q = 0xD
  · subst hthirteen
    have hhigh : 0x80 + r ≤ 0x9F := by
      have := hsurrogate rfl
      omega
    exact ⟨⟨0xD, 0x80, 0x9F, 1, by decide⟩, rfl, rfl, Nat.le_add_right 0x80 r, hhigh, rfl⟩
  · refine ⟨.plain q 1, ?_, rfl, Nat.le_add_right 0x80 r, le_high_plain hr _ _, rfl⟩
    unfold start
    rw [toNat_octet (by omega)]
    dsimp only
    rw [if_neg (by omega), if_neg (by omega), if_neg (by omega), if_neg (by omega),
      if_neg (by omega), if_pos (by omega), Nat.add_sub_cancel_left]

/-- The first octet of four, when the second one is neither that of an overlong form nor
that of a value beyond the last code point. -/
theorem opens_four {q r : Nat} (hq : q ≤ 4) (hr : r < 0x40) (hlong : q = 0 → 0x10 ≤ r)
    (hlast : q = 4 → r < 0x10) : Opens (0xF0 + q) q r 2 := by
  by_cases hzero : q = 0
  · subst hzero
    have hlow : 0x90 ≤ 0x80 + r := Nat.add_le_add_left (hlong rfl) 0x80
    exact ⟨⟨0, 0x90, 0xBF, 2, by decide⟩, rfl, rfl, hlow, le_high_plain hr 0 2, rfl⟩
  by_cases hfour : q = 4
  · subst hfour
    have hhigh : 0x80 + r ≤ 0x8F := by
      have := hlast rfl
      omega
    exact ⟨⟨4, 0x80, 0x8F, 2, by decide⟩, rfl, rfl, Nat.le_add_right 0x80 r, hhigh, rfl⟩
  · refine ⟨.plain q 2, ?_, rfl, Nat.le_add_right 0x80 r, le_high_plain hr _ _, rfl⟩
    unfold start
    rw [toNat_octet (by omega)]
    dsimp only
    rw [if_neg (by omega), if_neg (by omega), if_neg (by omega), if_neg (by omega),
      if_neg (by omega), if_neg (by omega), if_neg (by omega), if_pos (by omega),
      Nat.add_sub_cancel_left]

/-! ## Characters and texts -/

/-- A character of one octet. -/
theorem decodeFrom_none_of_ascii {n : Nat} (h : n < 0x80) (bs : List UInt8) :
    decodeFrom none (octet n :: bs) = Char.ofNat n :: decodeFrom none bs := by
  have hstart : start (octet n) = .char (Char.ofNat n) := by
    unfold start
    rw [toNat_octet (by omega)]
    dsimp only
    rw [if_pos h]
  rw [decodeFrom, step, stepFresh, hstart]
  rfl

/-- The octets of a character are read as that character, whatever follows. -/
theorem decodeFrom_encodeChar (c : Char) (bs : List UInt8) :
    decodeFrom none (encodeChar c ++ bs) = c :: decodeFrom none bs := by
  have hvalid : c.toNat < 0xD800 ∨ 0xDFFF < c.toNat ∧ c.toNat < 0x110000 := c.valid
  have hchar : ∀ n, n = c.toNat → Char.ofNat n = c := by
    rintro n rfl
    exact c.ofNat_toNat
  have hsix : ∀ v, v % 0x40 < 0x40 := fun v => Nat.mod_lt v (by decide)
  unfold encodeChar
  dsimp only
  -- one case for each length, and in each of them the bits of the octets make up the
  -- code point again
  split
  · next hone => rw [List.singleton_append, decodeFrom_none_of_ascii hone, hchar _ rfl]
  split
  · next hone htwo =>
    have hopens : Opens (0xC0 + c.toNat / 0x40) (c.toNat / 0x40) (c.toNat % 0x40) 0 :=
      opens_two (by omega) (by omega) (hsix _)
    have hbits : c.toNat / 0x40 * 0x40 + c.toNat % 0x40 = c.toNat := Nat.div_add_mod' _ _
    rw [List.cons_append, List.singleton_append, hopens.decodeFrom_of_zero (hsix _),
      hchar _ hbits]
  split
  · next hone htwo hthree =>
    have hopens : Opens (0xE0 + c.toNat / 0x1000) (c.toNat / 0x1000)
        (c.toNat / 0x40 % 0x40) 1 :=
      opens_three (by omega) (hsix _) (by omega) (by omega)
    have hbits : (c.toNat / 0x1000 * 0x40 + c.toNat / 0x40 % 0x40) * 0x40 + c.toNat % 0x40 =
        c.toNat := by
      omega
    rw [List.cons_append, List.cons_append, List.singleton_append,
      hopens.decodeFrom_of_succ (hsix _), decodeFrom_plain_zero (hsix _), hchar _ hbits]
  · next hone htwo hthree =>
    have hopens : Opens (0xF0 + c.toNat / 0x40000) (c.toNat / 0x40000)
        (c.toNat / 0x1000 % 0x40) 2 :=
      opens_four (by omega) (hsix _) (by omega) (by omega)
    have hbits : ((c.toNat / 0x40000 * 0x40 + c.toNat / 0x1000 % 0x40) * 0x40 +
        c.toNat / 0x40 % 0x40) * 0x40 + c.toNat % 0x40 = c.toNat := by
      omega
    rw [List.cons_append, List.cons_append, List.cons_append, List.singleton_append,
      hopens.decodeFrom_of_succ (hsix _), decodeFrom_plain_succ (hsix _),
      decodeFrom_plain_zero (hsix _), hchar _ hbits]

/-- A text that is written as octets is read back. -/
theorem decode_encode (t : Text) : decode (encode t) = t := by
  rw [decode, encode]
  induction t with
  | nil => rfl
  | cons c t ih => rw [List.flatMap_cons, decodeFrom_encodeChar, ih]

end Utf8

end BranchLabels
