import BranchLabels.SortedMap
import Mathlib.Data.List.Sort
import Mathlib.Data.Set.Card

/-!
# Maps by what they hold

A map in key order is fixed by what look-up finds in it.  Its size is the number
of keys it holds a value for, and a map made from a list of entries holds for each
key the last value of the list.

Main results:

- Theorem `ext_get?`: maps that hold the same are equal.
- Theorems `get?_ofList` and `get?_ofList_append`: of several entries with a key the
  last one counts.
- Theorem `size_eq_ncard`: the size of a map is the number of its keys.
- Theorem `perm_filterMap_get?`: looking up all keys gives the values of a map.
-/

namespace BranchLabels

namespace SortedMap

open AssocList

variable {α β : Type} [LT α]

/-! ## Keys -/

/-- The keys of a map are in strictly ascending order. -/
theorem pairwise_keys (m : SortedMap α β) : m.keys.Pairwise (· < ·) :=
  List.pairwise_map.2 m.ascending

/-- A map has as many entries as keys. -/
theorem length_keys (m : SortedMap α β) : m.keys.length = m.size :=
  List.length_map _

section Order

variable [Std.Irrefl (fun a b : α => a < b)]

/-- No key of a map is listed twice. -/
theorem nodup_keys (m : SortedMap α β) : m.keys.Nodup := by
  apply List.Pairwise.imp _ m.pairwise_keys
  intro a b hlt heq
  subst heq
  exact (inferInstance : Std.Irrefl fun a b : α => a < b).irrefl a hlt

variable [DecidableEq α]

/-- The keys of a map are those that look-up finds a value for. -/
theorem mem_keys_iff (m : SortedMap α β) (k : α) : k ∈ m.keys ↔ ∃ v, m.get? k = some v := by
  rw [keys, List.mem_map]
  constructor
  · rintro ⟨⟨l, v⟩, hmem, rfl⟩
    exact ⟨v, (mem_entries_iff m l v).1 hmem⟩
  · rintro ⟨v, hget⟩
    exact ⟨(k, v), (mem_entries_iff m k v).2 hget, rfl⟩

/-- The size of a map is the number of its keys. -/
theorem size_eq_ncard (m : SortedMap α β) : m.size = {k | ∃ v, m.get? k = some v}.ncard := by
  have hset : {k | ∃ v, m.get? k = some v} = (m.keys.toFinset : Set α) := by
    ext k
    rw [Finset.mem_coe, List.mem_toFinset]
    exact (mem_keys_iff m k).symm
  rw [hset, Set.ncard_coe_finset, List.toFinset_card_of_nodup m.nodup_keys, length_keys]

/-- Looking up all keys of a map gives its values. -/
theorem filterMap_get?_keys (m : SortedMap α β) :
    m.keys.filterMap m.get? = m.entries.map (·.2) := by
  rw [keys, List.filterMap_map, ← List.filterMap_eq_map]
  apply List.filterMap_congr
  rintro ⟨k, v⟩ hmem
  exact (mem_entries_iff m k v).1 hmem

/-- Looking up more than the keys of a map, each once, gives its values in some
order. -/
theorem perm_filterMap_get? (m : SortedMap α β) {ks : List α} (hnodup : ks.Nodup)
    (hkeys : ∀ k ∈ m.keys, k ∈ ks) : (ks.filterMap m.get?).Perm (m.entries.map (·.2)) := by
  have hheld : (ks.filter fun k => (m.get? k).isSome).Perm m.keys := by
    rw [List.perm_ext_iff_of_nodup (hnodup.filter _) m.nodup_keys]
    intro k
    rw [List.mem_filter, Option.isSome_iff_exists, ← mem_keys_iff]
    exact ⟨fun hk => hk.2, fun hk => ⟨hkeys k hk, hk⟩⟩
  have hdrop : (ks.filter fun k => (m.get? k).isSome).filterMap m.get? = ks.filterMap m.get? := by
    rw [List.filterMap_filter]
    apply List.filterMap_congr
    intro k _
    cases m.get? k <;> rfl
  rw [← hdrop, ← filterMap_get?_keys]
  exact hheld.filterMap _

/-- Maps that hold the same are equal. -/
theorem ext_get? [Std.Asymm (fun a b : α => a < b)] {m n : SortedMap α β}
    (h : ∀ k, m.get? k = n.get? k) : m = n := by
  have : Std.Antisymm fun p q : α × β => p.1 < q.1 :=
    ⟨fun p q hpq hqp => absurd hqp (Std.Asymm.asymm (r := fun a b : α => a < b) _ _ hpq)⟩
  have : Std.Irrefl fun p q : α × β => p.1 < q.1 :=
    ⟨fun p => (inferInstance : Std.Irrefl fun a b : α => a < b).irrefl p.1⟩
  apply ext_entries
  apply m.ascending.eq_of_mem_iff n.ascending
  rintro ⟨k, v⟩
  rw [mem_entries_iff, mem_entries_iff, h k]

end Order

/-! ## Maps from lists -/

variable [DecidableEq α] [DecidableLT α]
  [Trans (fun a b : α => a < b) (fun a b : α => a < b) (fun a b : α => a < b)]
  [Std.Trichotomous (fun a b : α => a < b)]

/-- Of several entries with a key the last one counts. -/
theorem get?_ofList (es : List (α × β)) (k : α) :
    (ofList es).get? k = es.reverse.lookup k := by
  rw [ofList, List.foldl_eq_foldr_reverse]
  induction es.reverse with
  | nil => rfl
  | cons e es ih =>
      rw [List.foldr_cons, get?_insert, ih, lookup_cons_eq]

@[simp] theorem get?_ofList_nil (k : α) : (ofList ([] : List (α × β))).get? k = none := rfl

/-- A single entry is found at its key. -/
@[simp] theorem get?_ofList_singleton (l k : α) (v : β) :
    (ofList [(l, v)]).get? k = if k = l then some v else none :=
  get?_insert empty l k v

/-- Later entries are found before earlier ones. -/
theorem get?_ofList_append (es fs : List (α × β)) (k : α) :
    (ofList (es ++ fs)).get? k = ((ofList fs).get? k).or ((ofList es).get? k) := by
  simp only [get?_ofList, List.reverse_append, List.lookup_append]

end SortedMap

end BranchLabels
