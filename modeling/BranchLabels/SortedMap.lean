import BranchLabels.AssocList

/-!
# Maps in key order

A finite map as the list of its entries in strictly ascending key order.  The
order is part of the type, so two maps are equal as soon as they hold the same
entries, however they came about.

Main results:

- Theorem `get?_insert`: what a map holds after an insertion.
- Theorem `mem_entries_iff`: the entries are exactly what look-up finds.
-/

namespace BranchLabels

/-- A finite map, as its entries in strictly ascending key order. -/
structure SortedMap (α β : Type) [LT α] where
  entries : List (α × β)
  ascending : entries.Pairwise fun p q => p.1 < q.1

namespace SortedMap

open AssocList

variable {α β : Type} [LT α]

/-- The map without entries. -/
def empty : SortedMap α β :=
  ⟨[], .nil⟩

instance : EmptyCollection (SortedMap α β) := ⟨empty⟩

instance : Inhabited (SortedMap α β) := ⟨empty⟩

/-- Maps are equal when their entries are. -/
theorem ext_entries {m n : SortedMap α β} (h : m.entries = n.entries) : m = n := by
  cases m
  cases n
  simp_all

instance [DecidableEq α] [DecidableEq β] : DecidableEq (SortedMap α β) := fun m n =>
  if h : m.entries = n.entries then isTrue (ext_entries h)
  else isFalse fun hmn => h (hmn ▸ rfl)

/-- The number of entries. -/
def size (m : SortedMap α β) : Nat :=
  m.entries.length

/-- Whether a map has no entries. -/
def isEmpty (m : SortedMap α β) : Bool :=
  m.entries.isEmpty

/-- The keys in ascending order. -/
def keys (m : SortedMap α β) : List α :=
  m.entries.map (·.1)

variable [DecidableEq α]

/-- The value that a map holds for a key. -/
def get? (m : SortedMap α β) (k : α) : Option β :=
  m.entries.lookup k

/-- Whether a map holds a value for a key. -/
def contains (m : SortedMap α β) (k : α) : Bool :=
  (m.get? k).isSome

@[simp] theorem get?_empty (k : α) : (empty : SortedMap α β).get? k = none := rfl

/-- The entries of a map are exactly what look-up finds. -/
theorem mem_entries_iff [Std.Irrefl (fun a b : α => a < b)] (m : SortedMap α β)
    (k : α) (v : β) : (k, v) ∈ m.entries ↔ m.get? k = some v := by
  obtain ⟨es, hes⟩ := m
  rw [get?]
  induction es with
  | nil => simp
  | cons head rest ih =>
      obtain ⟨l, w⟩ := head
      obtain ⟨hhead, hrest⟩ := List.pairwise_cons.1 hes
      rw [lookup_cons_eq, List.mem_cons]
      by_cases hkl : k = l
      · subst hkl
        have hnot : (k, v) ∉ rest := fun hmem =>
          (inferInstance : Std.Irrefl fun a b : α => a < b).irrefl k (hhead _ hmem)
        simp [hnot, eq_comm]
      · simp only [Prod.mk.injEq, hkl, false_and, false_or, if_neg, not_false_eq_true]
        exact ih hrest

/-! ## Insertion -/

variable [DecidableLT α]

/-- Put an entry in its place, or in the place of the entry with its key. -/
def insertEntry (k : α) (v : β) : List (α × β) → List (α × β)
  | [] => [(k, v)]
  | (l, w) :: rest =>
      if k < l then (k, v) :: (l, w) :: rest
      else if k = l then (k, v) :: rest
      else (l, w) :: insertEntry k v rest

/-- An entry of the list after an insertion is the new one or was there. -/
theorem eq_or_mem_of_mem_insertEntry {k : α} {v : β} {es : List (α × β)} {e : α × β}
    (h : e ∈ insertEntry k v es) : e = (k, v) ∨ e ∈ es := by
  induction es with
  | nil => simpa [insertEntry] using h
  | cons head rest ih =>
      obtain ⟨l, w⟩ := head
      rw [insertEntry] at h
      split at h
      · simpa using h
      · split at h
        · rcases List.mem_cons.1 h with h | h
          · exact .inl h
          · exact .inr (List.mem_cons_of_mem _ h)
        · rcases List.mem_cons.1 h with h | h
          · exact .inr (h ▸ List.mem_cons_self)
          · exact (ih h).imp_right (List.mem_cons_of_mem _)

variable [Trans (fun a b : α => a < b) (fun a b : α => a < b) (fun a b : α => a < b)]
  [Std.Trichotomous (fun a b : α => a < b)]

/-- Insertion keeps the entries in strictly ascending order. -/
theorem pairwise_insertEntry (k : α) (v : β) {es : List (α × β)}
    (h : es.Pairwise fun p q => p.1 < q.1) :
    (insertEntry k v es).Pairwise fun p q => p.1 < q.1 := by
  induction es with
  | nil => simp [insertEntry]
  | cons head rest ih =>
      obtain ⟨l, w⟩ := head
      obtain ⟨hhead, hrest⟩ := List.pairwise_cons.1 h
      rw [insertEntry]
      split
      · next hkl =>
        refine List.pairwise_cons.2 ⟨fun e he => ?_, h⟩
        rcases List.mem_cons.1 he with rfl | he
        · exact hkl
        · exact Trans.trans hkl (hhead e he)
      · split
        · next hkl =>
          subst hkl
          exact List.pairwise_cons.2 ⟨hhead, hrest⟩
        · next hlt hne =>
          refine List.pairwise_cons.2 ⟨fun e he => ?_, ih hrest⟩
          rcases eq_or_mem_of_mem_insertEntry he with rfl | he
          · exact Decidable.byContradiction fun hlk =>
              hne (Std.Trichotomous.trichotomous k l hlt hlk)
          · exact hhead e he

/-- The map with an entry added, or changed when its key is present. -/
def insert (m : SortedMap α β) (k : α) (v : β) : SortedMap α β :=
  ⟨insertEntry k v m.entries, pairwise_insertEntry k v m.ascending⟩

/-- What a map holds after an insertion. -/
theorem get?_insert (m : SortedMap α β) (k l : α) (v : β) :
    (m.insert k v).get? l = if l = k then some v else m.get? l := by
  obtain ⟨es, hes⟩ := m
  simp only [insert, get?]
  clear hes
  induction es with
  | nil => rw [insertEntry, lookup_cons_eq]
  | cons head rest ih =>
      obtain ⟨j, w⟩ := head
      rw [insertEntry]
      split
      · rw [lookup_cons_eq]
      · split
        · next hkj =>
          subst hkj
          rw [lookup_cons_eq, lookup_cons_eq]
          by_cases hlk : l = k <;> simp [hlk]
        · next hkj =>
          rw [lookup_cons_eq, ih, lookup_cons_eq]
          by_cases hlj : l = j
          · subst hlj
            simp [Ne.symm hkj]
          · simp [hlj]

/-- The map of a list of entries, of which the last with a key counts. -/
def ofList (es : List (α × β)) : SortedMap α β :=
  es.foldl (fun m e => m.insert e.1 e.2) empty

end SortedMap

end BranchLabels
