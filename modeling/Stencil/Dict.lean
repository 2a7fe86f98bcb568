/-
  Finite maps from names, as lists of pairs in ascending order of the names.

  The order is that of the code points of the names, and it is the order in which a map is listed.
  `get?_insert` and `get?_erase` say what the operations do to a look-up, `Sorted` is the
  invariant that they keep.  It stands beside the type and not in it, since the values of scripts
  and JSON documents have maps of themselves among their parts: a proof about the list of pairs
  inside such a part is no constructor argument that an inductive type of Lean can have.
-/

namespace Stencil

/-- A map from names; the names ascend. -/
abbrev Dict (α : Type) := List (String × α)

namespace Dict

variable {α : Type}

/-- What the name `key` is mapped to. -/
def get? (d : Dict α) (key : String) : Option α :=
  match d with
  | [] => none
  | (k, v) :: rest => if key = k then some v else get? rest key

def contains (d : Dict α) (key : String) : Bool := (get? d key).isSome

/-- Map `key` to `value`, whatever it was mapped to before. -/
def insert (d : Dict α) (key : String) (value : α) : Dict α :=
  match d with
  | [] => [(key, value)]
  | (k, v) :: rest =>
    if key = k then (key, value) :: rest
    else if key < k then (key, value) :: (k, v) :: rest
    else (k, v) :: insert rest key value

/-- Forget `key`. -/
def erase (d : Dict α) (key : String) : Dict α :=
  match d with
  | [] => []
  | (k, v) :: rest => if key = k then rest else (k, v) :: erase rest key

def keys (d : Dict α) : List String := d.map Prod.fst

/-- The map of a list of pairs; of two pairs with one name the later counts. -/
def ofList (pairs : List (String × α)) : Dict α :=
  pairs.foldl (fun d p => insert d p.1 p.2) []

/-- The names ascend. -/
def Sorted (d : Dict α) : Prop := d.Pairwise fun p q => p.1 < q.1

/-! ## Look-ups -/

@[simp] theorem get?_nil (key : String) : get? ([] : Dict α) key = none := rfl

theorem get?_insert (d : Dict α) (key other : String) (value : α) :
    get? (insert d key value) other = if other = key then some value else get? d other := by
  induction d with
  | nil => simp [insert, get?]
  | cons p rest ih =>
    obtain ⟨k, v⟩ := p
    by_cases h : key = k
    · subst h; by_cases ho : other = key <;> simp [insert, get?, ho]
    · by_cases hlt : key < k
      · simp [insert, get?, h, hlt]
      · simp only [insert, h, hlt, if_false, get?, ih]
        by_cases ho : other = key
        · subst ho; simp [h]
        · simp [ho]

@[simp] theorem get?_insert_self (d : Dict α) (key : String) (value : α) :
    get? (insert d key value) key = some value := by simp [get?_insert]

theorem get?_insert_of_ne {key other : String} (d : Dict α) (value : α) (h : other ≠ key) :
    get? (insert d key value) other = get? d other := by simp [get?_insert, h]

theorem get?_erase_of_ne {key other : String} (d : Dict α) (h : other ≠ key) :
    get? (erase d key) other = get? d other := by
  induction d with
  | nil => rfl
  | cons p rest ih =>
    obtain ⟨k, v⟩ := p
    by_cases hk : key = k
    · subst hk; simp [erase, get?, h]
    · simp [erase, get?, hk, ih]

theorem get?_isSome_iff {d : Dict α} {key : String} : (get? d key).isSome ↔ key ∈ keys d := by
  induction d with
  | nil => simp [keys]
  | cons p rest ih =>
    obtain ⟨k, v⟩ := p
    by_cases h : key = k
    · simp [get?, keys, h]
    · simp only [get?, h, if_false, ih, keys, List.map_cons, List.mem_cons, false_or]

/-! ## The order of the names -/

theorem Sorted.nil : Sorted ([] : Dict α) := List.Pairwise.nil

theorem mem_insert {d : Dict α} {key : String} {value : α} {p : String × α}
    (h : p ∈ insert d key value) : p = (key, value) ∨ p ∈ d := by
  induction d with
  | nil => simpa [insert] using h
  | cons q rest ih =>
    obtain ⟨k, v⟩ := q
    simp only [insert] at h
    split at h
    · rcases List.mem_cons.mp h with h | h
      · exact Or.inl h
      · exact Or.inr (List.mem_cons_of_mem _ h)
    · split at h
      · rcases List.mem_cons.mp h with h | h
        · exact Or.inl h
        · exact Or.inr h
      · rcases List.mem_cons.mp h with h | h
        · exact Or.inr (h ▸ List.mem_cons_self)
        · rcases ih h with h | h
          · exact Or.inl h
          · exact Or.inr (List.mem_cons_of_mem _ h)

theorem Sorted.insert {d : Dict α} (hd : Sorted d) (key : String) (value : α) :
    Sorted (Dict.insert d key value) := by
  induction d with
  | nil => simp [Dict.insert, Sorted]
  | cons q rest ih =>
    obtain ⟨k, v⟩ := q
    have hrest : Sorted rest := (List.pairwise_cons.mp hd).2
    have hk := (List.pairwise_cons.mp hd).1
    simp only [Dict.insert]
    split
    · rename_i h; subst h
      exact List.pairwise_cons.mpr ⟨hk, hrest⟩
    · rename_i hne
      split
      · rename_i hlt
        refine List.pairwise_cons.mpr ⟨fun p hp => ?_, hd⟩
        rcases List.mem_cons.mp hp with rfl | hp
        · exact hlt
        · exact String.lt_trans hlt (hk p hp)
      · rename_i hnlt
        refine List.pairwise_cons.mpr ⟨fun p hp => ?_, ih hrest⟩
        rcases mem_insert hp with rfl | hp
        · exact Decidable.byContradiction fun h =>
            hne (String.le_antisymm (String.not_lt.mp h) (String.not_lt.mp hnlt))
        · exact hk p hp

theorem Sorted.ofList (pairs : List (String × α)) : Sorted (Dict.ofList pairs) := by
  unfold Dict.ofList
  suffices ∀ d : Dict α, Sorted d → Sorted (pairs.foldl (fun d p => Dict.insert d p.1 p.2) d) from
    this [] Sorted.nil
  induction pairs with
  | nil => exact fun d hd => hd
  | cons p rest ih => exact fun d hd => ih _ (hd.insert p.1 p.2)

example : ofList [("b", 1), ("a", 2), ("b", 3)] = [("a", 2), ("b", 3)] := by decide +kernel

end Dict

end Stencil
