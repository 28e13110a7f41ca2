/-!
# Look-up in lists of pairs

Look-up in a list of keys with values goes from the front.

Main results:

- Theorem `lookup_cons_eq`: look-up decides by equality of keys.
- Theorem `lookup_filter_ne`: dropping the pairs of one key leaves all other keys
  alone.
-/

namespace BranchLabels

namespace AssocList

variable {α β : Type} [BEq α] [LawfulBEq α] [DecidableEq α]

/-- Look-up decides by equality of keys. -/
theorem lookup_cons_eq (k l : α) (w : β) (rest : List (α × β)) :
    ((l, w) :: rest).lookup k = if k = l then some w else rest.lookup k := by
  rw [List.lookup_cons]
  by_cases h : k = l
  · simp [h]
  · rw [if_neg h, beq_false_of_ne h]

/-- Dropping the pairs of one key leaves all other keys alone. -/
theorem lookup_filter_ne {k l : α} (h : k ≠ l) (es : List (α × β)) :
    (es.filter (·.1 ≠ l)).lookup k = es.lookup k := by
  induction es with
  | nil => rfl
  | cons head rest ih =>
      obtain ⟨j, w⟩ := head
      rw [List.filter_cons]
      by_cases hj : j = l
      · subst hj
        simp only [ne_eq, not_true_eq_false, decide_false, Bool.false_eq_true, if_false]
        rw [lookup_cons_eq, if_neg h]
        exact ih
      · simp only [ne_eq, hj, not_false_eq_true, decide_true, if_true]
        rw [lookup_cons_eq, lookup_cons_eq]
        exact ite_congr rfl (fun _ => rfl) fun _ => ih

end AssocList

end BranchLabels
