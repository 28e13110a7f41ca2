import BranchLabels.Proofs.Rereading

/-!
# Metadata survives labelling

A listing describes itself in lines `; key=value`, of which the last one with a key
counts.  Labelling adds lines that look alike, but only one of them is such a pair:
the number of labels, which stands after the header and before the trailer.  So a
labelled text that is read again says the same about itself, except that its header
now ends with the number of its labels.

Main results:

- Theorem `Listing.lastValue?_eq_some_iff`: the value of a key is that of the last
  line with the key.
- Theorem `Labelling.lastValue?_reread`: the value of each key after a labelled text
  is read again.
- Theorem `Labelling.metadata_survives`: a labelled text has the metadata of its
  listing and the number of labels, and a second pass warns as the first one did.
-/

namespace BranchLabels

open Text

/-! ## Single lines -/

/-- A decimal numeral has no blanks. -/
theorem noBlank_decimal (n : Nat) : NoBlank (decimal n) := by
  intro c hc
  have hdigit : 48 ≤ c.toNat ∧ c.toNat ≤ 57 := by
    simpa [Char.isDigit, UInt32.le_iff_toNat_le] using isDigit_of_mem_decimal hc
  exact isBlank_eq_false_of_isHexDigit (isHexDigit_iff_toNat.2 (.inl hdigit))

/-- A carriage return at the end of a line is a blank like others. -/
theorem trim_dropCarriageReturn (t : Text) : trim (dropCarriageReturn t) = trim t := by
  have hblank : AllBlank ['\r'] := by simp [AllBlank, isBlank_carriageReturn]
  rcases eq_dropCarriageReturn_or t with h | h
  · rw [← h]
  · calc trim (dropCarriageReturn t)
        = trim (dropCarriageReturn t ++ ['\r']) := (trim_append_allBlank _ hblank).symm
      _ = trim t := by rw [← h]

namespace Listing

/-- A carriage return at the end of a line does not matter for its pair. -/
theorem metadataPair?_dropCarriageReturn (t : Text) :
    metadataPair? (dropCarriageReturn t) = metadataPair? t := by
  rw [metadataPair?, trim_dropCarriageReturn]
  rfl

/-- A line that starts with a character other than a semicolon has no pair. -/
theorem metadataPair?_eq_none_of_head {t : Text} (hstart : StartsInField t)
    (hend : EndsInField t) (hhead : ∀ c ∈ t.head?, c ≠ ';') : metadataPair? t = none := by
  rw [metadataPair?, trim_eq_self hstart hend]
  cases t with
  | nil => rfl
  | cons c t =>
      have hc : c ≠ ';' := hhead c rfl
      split
      · next hcons =>
        exact absurd (List.cons.inj hcons).1 hc
      · rfl

/-- The declaration of a label has no pair. -/
theorem metadataPair?_declaration {name : Text} (h : Config.ValidPrefix name) :
    metadataPair? (name ++ [':']) = none := by
  have hcolon : EndsInField [':'] := by simp [EndsInField]; decide
  apply metadataPair?_eq_none_of_head
  · exact h.noBlank.startsInField.append fun hnil => absurd hnil h.ne_nil
  · exact hcolon.append_of_ne_nil (by simp)
  · intro c hc
    rw [List.head?_append_of_ne_nil _ h.ne_nil] at hc
    rintro rfl
    exact h.not_mem (c := ';') (by decide) (List.mem_of_mem_head? hc)

/-- The line with the number of labels has that number as its pair. -/
theorem metadataPair?_labelCount (n : Nat) :
    metadataPair? ("; labels=".toList ++ decimal n) = some ("labels".toList, decimal n) := by
  have hne : decimal n ≠ [] := Nat.toDigits_ne_nil
  have hend : EndsInField ("; labels=".toList ++ decimal n) :=
    (noBlank_decimal n).endsInField.append_of_ne_nil hne
  have htrim : trim ("; labels=".toList ++ decimal n) =
      ';' :: (" labels".toList ++ '=' :: decimal n) :=
    trim_eq_self (by simp [StartsInField]; decide) hend
  have hcut : cutAtFirst? '=' (" labels".toList ++ '=' :: decimal n) =
      some (" labels".toList, decimal n) :=
    cutAtFirst?_eq_some_iff.2 ⟨rfl, by decide⟩
  have hvalue : trim (decimal n) = decimal n :=
    trim_eq_self (noBlank_decimal n).startsInField (noBlank_decimal n).endsInField
  have hkey : trim " labels".toList = "labels".toList := by decide
  have hword : ¬ ("labels".toList = [] ∨ "labels".toList.any isBlank = true) := by decide
  simp only [metadataPair?, htrim, hcut, hvalue, hkey, if_neg hword]

/-! ## The value of a key -/

/-- What the last of some lines with a key says. -/
def lastValue? (lines : List Text) (key : Text) : Option Text :=
  ({ header := lines } : Listing).metadata.get? key

/-- The metadata of a listing are the last values in its header and its trailer. -/
theorem get?_metadata (l : Listing) (key : Text) :
    l.metadata.get? key = lastValue? (l.header ++ l.trailer) key := by
  rw [lastValue?, metadata, metadata, List.append_nil]

/-- Later lines come before earlier ones. -/
theorem lastValue?_append (lines lines' : List Text) (key : Text) :
    lastValue? (lines ++ lines') key = (lastValue? lines' key).or (lastValue? lines key) := by
  simp only [lastValue?, metadata, List.append_nil, List.filterMap_append,
    SortedMap.get?_ofList_append]

/-- One line says what its pair is. -/
theorem lastValue?_singleton_eq_some_iff {t key value : Text} :
    lastValue? [t] key = some value ↔ metadataPair? t = some (key, value) := by
  rw [lastValue?, metadata, List.append_nil]
  cases hpair : metadataPair? t with
  | none => simp [hpair]
  | some pair =>
      obtain ⟨k, v⟩ := pair
      rw [List.filterMap_cons_some hpair, List.filterMap_nil, SortedMap.get?_ofList_singleton]
      by_cases hkey : key = k
      · simp [hkey]
      · simp [hkey, Ne.symm hkey]

/-- Lines of which none has the key say nothing about it. -/
theorem lastValue?_eq_none_iff {lines : List Text} {key : Text} :
    lastValue? lines key = none ↔ ∀ t ∈ lines, ∀ value, metadataPair? t ≠ some (key, value) := by
  induction lines with
  | nil => simp [lastValue?, metadata]
  | cons t lines ih =>
      rw [← List.singleton_append, lastValue?_append, Option.or_eq_none_iff, ih,
        Option.eq_none_iff_forall_ne_some]
      simp [lastValue?_singleton_eq_some_iff, and_comm]

/-- The last of some lines with a key has a value. -/
def IsLastValue (lines : List Text) (key value : Text) : Prop :=
  ∃ ahead line behind, lines = ahead ++ line :: behind ∧
    metadataPair? line = some (key, value) ∧
    ∀ t ∈ behind, ∀ other, metadataPair? t ≠ some (key, other)

/-- The value of a key is that of the last line with the key. -/
theorem lastValue?_eq_some_iff {lines : List Text} {key value : Text} :
    lastValue? lines key = some value ↔ IsLastValue lines key value := by
  constructor
  · intro h
    induction lines with
    | nil => simp [lastValue?, metadata] at h
    | cons t lines ih =>
        rw [← List.singleton_append, lastValue?_append, Option.or_eq_some_iff] at h
        rcases h with h | ⟨hnone, h⟩
        · obtain ⟨ahead, line, behind, rfl, hline, hbehind⟩ := ih h
          exact ⟨t :: ahead, line, behind, rfl, hline, hbehind⟩
        · exact ⟨[], t, lines, rfl, lastValue?_singleton_eq_some_iff.1 h,
            lastValue?_eq_none_iff.1 hnone⟩
  · rintro ⟨ahead, line, behind, rfl, hline, hbehind⟩
    rw [lastValue?_append, ← List.singleton_append, lastValue?_append,
      lastValue?_eq_none_iff.2 hbehind, lastValue?_singleton_eq_some_iff.2 hline]
    rfl

/-! ## The lines that are added -/

/-- Carriage returns at the ends of lines do not matter for what they say. -/
theorem lastValue?_map_dropCarriageReturn (lines : List Text) (key : Text) :
    lastValue? (lines.map dropCarriageReturn) key = lastValue? lines key := by
  have hpairs : metadataPair? ∘ dropCarriageReturn = metadataPair? :=
    funext metadataPair?_dropCarriageReturn
  simp only [lastValue?, metadata, List.append_nil, List.filterMap_map, hpairs]

/-- The only thing that the banner says is the number of labels. -/
theorem lastValue?_bannerLines (n : Nat) (key : Text) :
    lastValue? (bannerLines n) key =
      if key = "labels".toList then some (decimal n) else none := by
  have hempty : metadataPair? [] = none := rfl
  have hbanner : metadataPair? banner = none := by decide
  have hpairs : (bannerLines n).filterMap metadataPair? = [("labels".toList, decimal n)] := by
    simp only [bannerLines, List.filterMap_cons, hempty, hbanner, metadataPair?_labelCount,
      List.filterMap_nil]
  rw [lastValue?, metadata, List.append_nil, hpairs, SortedMap.get?_ofList_singleton]

/-- Declarations say nothing. -/
theorem lastValue?_declarations (config : Config) {labels : LabelTable} (h : labels.Valid)
    (addresses : List Address) (key : Text) :
    lastValue? (declarations config labels addresses) key = none := by
  rw [lastValue?_eq_none_iff]
  intro t ht value
  obtain ⟨name, hname, ht⟩ := List.mem_flatMap.1 ht
  obtain ⟨a, -, hget⟩ := List.mem_filterMap.1 hname
  rcases eq_of_mem_declaration ht with rfl | rfl
  · simp [metadataPair?, trim, trimStart, trimEnd]
  · rw [metadataPair?_declaration (h a name hget)]
    simp

end Listing

/-! ## Warnings -/

/-- Whether an event warns of another number of instructions than declared. -/
def Event.isCountWarning : Event → Bool
  | .countDiffers .. => true
  | _ => false

namespace Labelling

variable {isa : Isa} {config : Config} {text : Text} {p : Labelling}

/-- The warnings of a labelling are those about its listing. -/
theorem filter_isCountWarning_events (h : ofText isa config text = .ok p) :
    p.events.filter Event.isCountWarning = countWarning p.listing := by
  obtain ⟨-, l, -, rfl⟩ := ofText_eq_ok_iff.1 h
  have hwarning : (countWarning l).filter Event.isCountWarning = countWarning l := by
    unfold countWarning
    split
    · split <;> rfl
    · rfl
  have hstray : (strayEvents isa l).filter Event.isCountWarning = [] := by
    rw [strayEvents, List.filter_eq_nil_iff]
    intro e he
    obtain ⟨_, -, rfl⟩ := List.mem_map.1 he
    exact Bool.false_ne_true
  simp only [ofListing, List.filter_append, List.filter_cons, List.filter_nil, hwarning, hstray]
  simp [Event.isCountWarning, readEvent]

/-- Whether there is a warning depends on the declared and the real number of
instructions alone. -/
theorem countWarning_congr {l l' : Listing}
    (hdeclared : l'.metadata.get? "instructions".toList = l.metadata.get? "instructions".toList)
    (hcount : l'.instructions.length = l.instructions.length) :
    countWarning l' = countWarning l := by
  rw [countWarning, countWarning, hdeclared, hcount]

/-! ## The labelled text -/

/-- A labelled text that is read again says about each key what the trailer said, or
else the banner, or else the header. -/
theorem lastValue?_reread (h : ofText isa config text = .ok p) {l : Listing}
    (hheader : l.header = p.listing.header.map dropCarriageReturn ++
      bannerLines p.labels.size ++ declarations config p.labels (p.listing.addresses.take 1))
    (htrailer : l.trailer = declarations config p.labels (p.listing.addresses.drop 1) ++
      p.listing.trailer.map dropCarriageReturn) (key : Text) :
    l.metadata.get? key = (Listing.lastValue? p.listing.trailer key).or
      ((if key = "labels".toList then some (decimal p.labels.size) else none).or
        (Listing.lastValue? p.listing.header key)) := by
  have hlabels : p.labels.Valid := labels_valid h
  simp only [Listing.get?_metadata, hheader, htrailer, Listing.lastValue?_append,
    Listing.lastValue?_declarations config hlabels, Listing.lastValue?_bannerLines,
    Listing.lastValue?_map_dropCarriageReturn, Option.or_none, Option.none_or]

/-- The metadata of a labelled text are those of its listing for all keys but
`labels`.  For that key they have the value of the last such line of the trailer, and
the number of labels if there is none.  So labelling the text again gives the same
warning about the number of instructions, or none if there was none. -/
theorem metadata_survives (h : ofText isa config text = .ok p) :
    ∃ l, Listing.ofText p.text = .ok l ∧
      (∀ key, key ≠ "labels".toList → l.metadata.get? key = p.listing.metadata.get? key) ∧
      (∀ value, Listing.IsLastValue p.listing.trailer "labels".toList value →
        l.metadata.get? "labels".toList = some value) ∧
      ((¬ ∃ value, Listing.IsLastValue p.listing.trailer "labels".toList value) →
        l.metadata.get? "labels".toList = some (decimal p.labels.size)) ∧
      ∀ isa' config', Config.validate config' = .ok () →
        ∃ p', ofText isa' config' p.text = .ok p' ∧
          p'.events.filter Event.isCountWarning = p.events.filter Event.isCountWarning := by
  obtain ⟨l, hl, hheader, hinstructions, htrailer⟩ := exists_reread h
  have hvalue := lastValue?_reread h hheader htrailer
  have hother : ∀ key, key ≠ "labels".toList →
      l.metadata.get? key = p.listing.metadata.get? key := by
    intro key hkey
    rw [hvalue, if_neg hkey, Option.none_or, Listing.get?_metadata, Listing.lastValue?_append]
  refine ⟨l, hl, hother, ?_, ?_, ?_⟩
  · intro value hlast
    rw [hvalue, Listing.lastValue?_eq_some_iff.2 hlast]
    rfl
  · intro hnone
    simp only [← Listing.lastValue?_eq_some_iff] at hnone
    rw [hvalue, Option.eq_none_iff_forall_ne_some.2 fun v hv => hnone ⟨v, hv⟩, if_pos rfl]
    rfl
  · intro isa' config' hvalid
    have hp' : ofText isa' config' p.text = .ok (ofListing isa' config' l) :=
      ofText_eq_ok_iff.2 ⟨Config.validate_eq_ok_iff.1 hvalid, l, hl, rfl⟩
    refine ⟨_, hp', ?_⟩
    rw [filter_isCountWarning_events hp', filter_isCountWarning_events h]
    exact countWarning_congr (hother _ (by decide)) hinstructions.length_eq.symm

/-- A listing that declares a wrong number of instructions and numbers of labels
before and after its instructions. -/
def describedText : Text :=
  "; labels=9\n; instructions=7\r\r\n0x0: 6f j 0x0\n ;labels = 5 \r\r\n".toList

theorem metadata_survives_sample :
    ∃ p l p', ofText .rv32 .standard describedText = .ok p ∧ Listing.ofText p.text = .ok l ∧
      l.metadata.get? "instructions".toList = some "7".toList ∧
      l.metadata.get? "labels".toList = some "5".toList ∧
      ofText .rv32 ⟨"L".toList, false⟩ p.text = .ok p' ∧
      p'.events.filter Event.isCountWarning = [.countDiffers "7".toList 1] := by
  obtain ⟨p, hp⟩ : ∃ p, ofText .rv32 .standard describedText = .ok p := ⟨_, rfl⟩
  obtain ⟨l, hl, hother, hlast, -, hpass⟩ := metadata_survives hp
  obtain ⟨p', hp', hwarnings⟩ := hpass .rv32 ⟨"L".toList, false⟩ (by decide)
  have hlisting : p.listing.metadata.get? "instructions".toList = some "7".toList ∧
      p.listing.trailer = [" ;labels = 5 \r".toList] ∧
      p.events.filter Event.isCountWarning = [.countDiffers "7".toList 1] := by
    obtain rfl := Except.ok.inj hp
    decide +kernel
  refine ⟨p, l, p', hp, hl, (hother _ (by decide)).trans hlisting.1, hlast _ ?_, hp',
    hwarnings.trans hlisting.2.2⟩
  rw [hlisting.2.1]
  exact ⟨[], _, [], rfl, by decide, by simp⟩

end Labelling

end BranchLabels
