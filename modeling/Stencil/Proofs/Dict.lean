/-
  Maps under changes.

  What holds of all values of a map is kept when values with it are added, and the order in which
  two names are mapped does not matter (`insert_comm`), nor what a name was mapped to before
  (`insert_insert`).
-/
import Stencil.Dict

namespace Stencil.Dict

variable {α : Type}

/-! ## What holds of all values -/

theorem mem_of_get? {d : Dict α} {key : String} {v : α}
    (h : get? d key = some v) : (key, v) ∈ d := by
  induction d with
  | nil => cases h
  | cons p rest ih =>
    obtain ⟨k, w⟩ := p
    rw [get?] at h
    split at h
    · rename_i hk
      cases h
      exact hk ▸ List.mem_cons_self
    · exact List.mem_cons_of_mem _ (ih h)

/-- What holds of all values of a map holds of those that are looked up. -/
theorem forall_get? {d : Dict α} {Q : α → Prop} (h : ∀ p ∈ d, Q p.2) {key : String}
    {v : α} (hv : get? d key = some v) : Q v :=
  h _ (mem_of_get? hv)

theorem forall_insert {d : Dict α} {Q : α → Prop} (h : ∀ p ∈ d, Q p.2)
    (key : String) {v : α} (hv : Q v) : ∀ p ∈ insert d key v, Q p.2 := by
  intro p hp
  rcases mem_insert hp with rfl | hp
  · exact hv
  · exact h p hp

theorem forall_ofList {pairs : List (String × α)} {Q : α → Prop}
    (h : ∀ p ∈ pairs, Q p.2) : ∀ p ∈ ofList pairs, Q p.2 := by
  unfold ofList
  suffices ∀ d : Dict α, (∀ p ∈ d, Q p.2) →
      ∀ p ∈ pairs.foldl (fun d p => insert d p.1 p.2) d, Q p.2 from this [] (by simp)
  induction pairs with
  | nil => exact fun d hd => hd
  | cons p rest ih =>
    rw [List.forall_mem_cons] at h
    exact fun d hd => ih h.2 _ (forall_insert hd p.1 h.1)

/-- A name that no pair has is not in the map of the pairs. -/
theorem get?_ofList_eq_none {pairs : List (String × α)} {key : String}
    (h : ∀ p ∈ pairs, p.1 ≠ key) : get? (ofList pairs) key = none := by
  unfold ofList
  suffices ∀ d : Dict α, get? d key = none →
      get? (pairs.foldl (fun d p => insert d p.1 p.2) d) key = none from this [] rfl
  induction pairs with
  | nil => exact fun d hd => hd
  | cons p rest ih =>
    obtain ⟨hne, hrest⟩ := List.forall_mem_cons.mp h
    intro d hd
    exact ih hrest _ ((get?_insert_of_ne d p.2 hne.symm).trans hd)

/-! ## Maps that are in order -/

theorem insert_of_lt {d : Dict α} {key : String} (h : ∀ p ∈ d, p.1 < key) (v : α) :
    insert d key v = d ++ [(key, v)] := by
  induction d with
  | nil => rfl
  | cons p rest ih =>
    obtain ⟨hlt, hrest⟩ := List.forall_mem_cons.mp h
    have hne : key ≠ p.1 := (String.ne_of_lt hlt).symm
    simp only [insert, if_neg hne, if_neg (String.lt_asymm hlt), ih hrest, List.cons_append]

/-- The map of pairs that are in order is the pairs. -/
theorem ofList_of_sorted {pairs : List (String × α)} (h : Sorted pairs) : ofList pairs = pairs := by
  unfold ofList
  suffices ∀ d : Dict α, Sorted (d ++ pairs) →
      pairs.foldl (fun d p => insert d p.1 p.2) d = d ++ pairs from this [] h
  clear h
  induction pairs with
  | nil => simp
  | cons p rest ih =>
    intro d hd
    have hlt : ∀ q ∈ d, q.1 < p.1 := fun q hq =>
      (List.pairwise_append.mp hd).2.2 q hq p List.mem_cons_self
    rw [List.foldl_cons, insert_of_lt hlt, ih _ (by simpa using hd)]
    simp

/-! ## Changes in a row -/

/-- The later of two changes of one name counts. -/
theorem insert_insert (d : Dict α) (key : String) (v w : α) :
    insert (insert d key v) key w = insert d key w := by
  induction d with
  | nil => simp [insert]
  | cons p rest ih =>
    obtain ⟨k, u⟩ := p
    by_cases hk : key = k
    · simp [insert, hk]
    · by_cases hlt : key < k
      · simp [insert, hk, hlt]
      · simp [insert, hk, hlt, ih]

theorem insert_comm_of_lt (d : Dict α) {key other : String} (h : key < other) (v w : α) :
    insert (insert d key v) other w = insert (insert d other w) key v := by
  have hne : key ≠ other := String.ne_of_lt h
  have hgt : ¬ other < key := String.lt_asymm h
  induction d with
  | nil => simp [insert, hne, hne.symm, h, hgt]
  | cons p rest ih =>
    obtain ⟨k, u⟩ := p
    by_cases hk : key = k
    · subst hk
      simp [insert, hne.symm, hgt]
    by_cases hlt : key < k
    · -- the smaller name goes to the front, the other one is mapped behind it
      by_cases ho : other = k
      · subst ho
        simp [insert, hne, hne.symm, h, hgt]
      · by_cases holt : other < k
        · simp [insert, hk, hlt, ho, holt, hne, hne.symm, h, hgt]
        · simp [insert, hk, hlt, ho, holt, hne.symm, hgt]
    · have ho : other ≠ k := fun ho => hlt (ho ▸ h)
      have holt : ¬ other < k := fun holt => hlt (String.lt_trans h holt)
      simp [insert, hk, hlt, ho, holt, ih]

/-- Changes of two names may be made in either order. -/
theorem insert_comm (d : Dict α) {key other : String} (h : key ≠ other) (v w : α) :
    insert (insert d key v) other w = insert (insert d other w) key v := by
  by_cases hlt : key < other
  · exact insert_comm_of_lt d hlt v w
  · have hgt : other < key := Decidable.byContradiction fun hgt =>
      h (String.le_antisymm (String.not_lt.mp hgt) (String.not_lt.mp hlt))
    exact (insert_comm_of_lt d hgt w v).symm

end Stencil.Dict
