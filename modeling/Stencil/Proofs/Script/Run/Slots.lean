/-
  Reading what has been written.

  A slot is written by rebuilding the value of its variable around the new one, and read by
  following its keys from the variable inward.  The two agree on which key leads where
  (`Value.Apart`): what is stored under a key is read under every key that leads there, and keys
  that lead elsewhere read what they read before, but for the `length` of an array that has grown
  (`Value.Stored`).  Carried along a path this is the law of reading after writing.  To push to an
  array or to pop from it is to write it, except that a constant variable may be changed so.
-/
import Stencil.Proofs.Script.Run.Changes
import Stencil.Proofs.Script.Run.Rules
import Stencil.Script.Run

namespace Stencil.Number

/-- The number as an integer, if it is whole. -/
def whole? (x : Float) : Option Int :=
  match isWhole x, rounded x with
  | true, .whole n => some n
  | _, _ => none

theorem index?_eq (length : Nat) (x : Float) :
    index? length x
      = (whole? x).bind fun n => if 0 ≤ n ∧ n < length then some n.toNat else none := by
  unfold index? whole?
  cases isWhole x with
  | false => rfl
  | true => cases rounded x <;> rfl

end Stencil.Number

namespace Stencil.Script

namespace Value

/-! ## Where keys lead -/

/-- The position in an array that a key names, if it is a whole number. -/
def position? : Value → Option Int
  | number x => Number.whole? x
  | _ => none

/-- The item at a position. -/
def itemAt? (items : List Value) (n : Int) : Option Value :=
  if 0 ≤ n then items[n.toNat]? else none

/-- In the receiver, the keys lead to different slots: to different positions of an array, or to
    members of an object with different names. -/
def Apart (receiver key key' : Value) : Prop :=
  match receiver with
  | array _ => position? key' ≠ position? key
  | object _ => key'.display ≠ key.display
  | _ => False

/-- At some key of the first path, the second one leads to a different slot. -/
def Parts : (path path' : List Value) → Value → Prop
  | key :: path, key' :: path', v =>
    Apart v key key' ∨ ∃ inner, readIndex v key = .ok inner ∧ Parts path path' inner
  | _, _, _ => False

/-- The path leads to the `length` of an array that has more items in the second value. -/
def Grown (path : List Value) (v v' : Value) : Prop :=
  ∃ init key items items', path = init ++ [key] ∧ key.display = "length" ∧
    readPath init v = .ok (array items) ∧ readPath init v' = .ok (array items') ∧
    items.length < items'.length

theorem item_eq (items : List Value) (x : Float) :
    ((Number.index? items.length x).bind fun i => items[i]?)
      = (position? (number x)).bind (itemAt? items) := by
  rw [Number.index?_eq, position?, Option.bind_assoc]
  congr 1
  funext n
  rw [itemAt?]
  by_cases hn : 0 ≤ n
  · by_cases hlt : n < items.length
    · rw [if_pos ⟨hn, hlt⟩, if_pos hn, Option.bind_some]
    · rw [if_neg fun h => hlt h.2, if_pos hn, List.getElem?_eq_none (by omega)]
      rfl
  · rw [if_neg fun h => hn h.1, if_neg hn]
    rfl

theorem readIndex_number (items : List Value) (x : Float) :
    readIndex (array items) (number x)
      = .ok (((position? (number x)).bind (itemAt? items)).getD undefined) := by
  rw [readIndex, item_eq]

theorem readIndex_object (members : List (String × Value)) (key : Value) :
    readIndex (object members) key = .ok ((Dict.get? members key.display).getD undefined) := by
  cases key <;> rfl

/-- A key of an array is a number, or the name of a member of arrays. -/
theorem number_or_member (key : Value) : (∃ x, key = number x) ∨
    (position? key = none ∧ ∀ items, readIndex (array items) key = .ok
      (if key.display = "length" then number (Number.ofCount items.length)
        else undefined)) := by
  cases key with
  | number x => exact Or.inl ⟨x, rfl⟩
  | _ => exact Or.inr ⟨rfl, fun _ => rfl⟩

/-! ## One store -/

/-- The second value is the first one with `w` stored under `key`: it is read there, and under keys
    that lead elsewhere nothing has changed but the length of an array. -/
structure Stored (v key w v' : Value) : Prop where
  read : ∀ {key'}, ¬ Apart v key key' → readIndex v' key' = .ok w
  others : ∀ {key'}, Apart v key key' → readIndex v' key' = readIndex v key' ∨
    (key'.display = "length" ∧ ∃ items items', v = array items ∧ v' = array items' ∧
      items.length < items'.length ∧
      readIndex v key' = .ok (number (Number.ofCount items.length)) ∧
      readIndex v' key' = .ok (number (Number.ofCount items'.length)))

theorem length_setItem (items : List Value) (i : Nat) (w : Value) :
    (setItem items i w).length = max items.length (i + 1) := by
  unfold setItem
  split
  · rw [List.length_set]
    omega
  · simp only [List.length_append, List.length_replicate, List.length_singleton]
    omega

theorem getD_setItem (items : List Value) (i j : Nat) (w : Value) :
    (setItem items i w)[j]?.getD undefined = if j = i then w else items[j]?.getD undefined := by
  unfold setItem
  split
  · rename_i hlt
    rw [List.getElem?_set]
    by_cases h : j = i
    · rw [if_pos h.symm, if_pos h, if_pos (h ▸ hlt)]
      rfl
    · rw [if_neg (Ne.symm h), if_neg h]
  · rename_i hge
    rw [List.append_assoc, List.getElem?_append]
    by_cases hj : j < items.length
    · rw [if_pos hj, if_neg (by omega)]
    rw [if_neg hj, List.getElem?_append, List.length_replicate, List.getElem?_replicate,
      List.getElem?_eq_none (l := items) (by omega)]
    by_cases h : j = i
    · rw [if_neg (by omega), if_pos h, h, Nat.sub_self]
      rfl
    · rw [if_neg h]
      split
      · rfl
      · rw [List.getElem?_eq_none (by rw [List.length_singleton]; omega)]

/-- What can be stored in an array is stored at a position of it. -/
theorem setIndex_array {items : List Value} {key w v' : Value}
    (h : setIndex (array items) key w = .ok v') :
    ∃ n : Int, position? key = some n ∧ 0 ≤ n ∧ v' = array (setItem items n.toNat w) := by
  unfold setIndex at h
  split at h
  · rename_i items' x hitems
    cases hitems
    split at h
    · rename_i n hwhole hrounded
      split at h
      · cases h
      · split at h
        · cases h
        · cases h
          refine ⟨n, ?_, by omega, rfl⟩
          rw [position?, Number.whole?, hwhole, hrounded]
    · cases h
  · rename_i hitems
    cases hitems
  · cases h

theorem setIndex_of_position {items : List Value} {key : Value} {n : Int}
    (hkey : position? key = some n) (hn : 0 ≤ n) (hgap : n.toNat ≤ items.length + maxGap)
    (w : Value) : setIndex (array items) key w = .ok (array (setItem items n.toNat w)) := by
  cases key with
  | number x =>
    rw [position?, Number.whole?] at hkey
    split at hkey <;> cases hkey
    rename_i hwhole hrounded
    simp only [setIndex, hwhole, hrounded]
    rw [if_neg (by omega), if_neg (by omega)]
  | _ => cases hkey

theorem setItem_stored {items : List Value} {key w : Value} {n : Int}
    (hkey : position? key = some n) (hn : 0 ≤ n) :
    Stored (array items) key w (array (setItem items n.toNat w)) where
  read {key'} hsame := by
    have hposition : position? key' = some n := (Classical.not_not.mp hsame).trans hkey
    rcases number_or_member key' with ⟨x, rfl⟩ | ⟨hnone, -⟩
    · rw [readIndex_number, hposition, Option.bind_some, itemAt?, if_pos hn, getD_setItem,
        if_pos rfl]
    · rw [hnone] at hposition
      cases hposition
  others {key'} hapart := by
    rcases number_or_member key' with ⟨x, rfl⟩ | ⟨-, hmember⟩
    · refine Or.inl ?_
      rw [readIndex_number, readIndex_number]
      cases hx : position? (number x) with
      | none => rfl
      | some n' =>
        have hne : n' ≠ n := fun heq => hapart (by rw [hx, hkey, heq])
        rw [Option.bind_some, Option.bind_some, itemAt?, itemAt?]
        by_cases hn' : 0 ≤ n'
        · rw [if_pos hn', if_pos hn', getD_setItem, if_neg (by omega)]
        · rw [if_neg hn', if_neg hn']
    · rw [hmember, hmember]
      by_cases hlength : key'.display = "length"
      · rw [if_pos hlength, if_pos hlength]
        by_cases hgrown : items.length < (setItem items n.toNat w).length
        · exact Or.inr ⟨hlength, items, _, rfl, rfl, hgrown, rfl, rfl⟩
        · rw [length_setItem] at hgrown
          exact Or.inl (by rw [length_setItem, Nat.max_eq_left (by omega)])
      · rw [if_neg hlength, if_neg hlength]
        exact Or.inl rfl

/-- **Storing under a key** is seen under that key, and nowhere else. -/
theorem setIndex_stored {v key w v' : Value} (h : setIndex v key w = .ok v') :
    Stored v key w v' := by
  cases v with
  | array items =>
    obtain ⟨n, hkey, hn, rfl⟩ := setIndex_array h
    exact setItem_stored hkey hn
  | object members =>
    have hv' : v' = object (Dict.insert members key.display w) := by
      cases key <;> cases h <;> rfl
    subst hv'
    constructor
    · intro key' hsame
      rw [readIndex_object, Dict.get?_insert, if_pos (Classical.not_not.mp hsame)]
      rfl
    · intro key' hapart
      rw [readIndex_object, readIndex_object, Dict.get?_insert, if_neg hapart]
      exact Or.inl rfl
  | _ => cases key <;> cases h

theorem apart_irrefl (v key : Value) : ¬ Apart v key key := by
  cases v with
  | array items => exact fun h => h rfl
  | object members => exact fun h => h rfl
  | _ => exact id

/-! ## Along paths -/

section

variable {v v' inner w : Value} {key : Value} {path : List Value}

/-- A member that exists is an item of an array or a member of an object. -/
theorem existing_cases (h : existing v key = .ok inner) :
    (∃ items x n, v = array items ∧ key = number x ∧ position? key = some n ∧ 0 ≤ n ∧
      n.toNat < items.length ∧ items[n.toNat]? = some inner) ∨
    (∃ members, v = object members ∧ Dict.get? members key.display = some inner) := by
  cases v with
  | array items =>
    cases key with
    | number x =>
      simp only [existing, item_eq] at h
      split at h <;> cases h
      rename_i hitem
      obtain ⟨n, hn, hitem⟩ := Option.bind_eq_some_iff.mp hitem
      rw [itemAt?] at hitem
      split at hitem
      · exact Or.inl ⟨items, x, n, rfl, rfl, hn, ‹_›, (List.getElem?_eq_some_iff.mp hitem).1, hitem⟩
      · cases hitem
    | _ => cases h
  | object members =>
    have hget : Dict.get? members key.display = some inner := by
      cases key <;>
      · simp only [existing] at h
        split at h <;> cases h
        assumption
    exact Or.inr ⟨members, rfl, hget⟩
  | _ => cases key <;> cases h

/-- To replace a member that exists is to store under its key, and makes nothing longer. -/
theorem setIndex_of_existing (h : existing v key = .ok inner) (w : Value) :
    setIndex v key w = .ok (replaceExisting v key w) ∧
      ∀ items items', v = array items → replaceExisting v key w = array items' →
        items'.length = items.length := by
  rcases existing_cases h with ⟨items, x, n, rfl, rfl, hkey, hn, hlt, -⟩ | ⟨members, rfl, -⟩
  · have hwhole : Number.whole? x = some n := hkey
    have hindex : Number.index? items.length x = some n.toNat := by
      rw [Number.index?_eq, hwhole, Option.bind_some, if_pos ⟨hn, by omega⟩]
    have hreplace : replaceExisting (array items) (number x) w = array (items.set n.toNat w) := by
      rw [replaceExisting, hindex]
    refine ⟨?_, ?_⟩
    · rw [setIndex_of_position hkey hn (by omega), hreplace, setItem, if_pos hlt]
    · rintro _ _ ⟨⟩ hitems
      rw [hreplace] at hitems
      cases hitems
      exact List.length_set
  · exact ⟨by cases key <;> rfl, fun items _ hv => by cases hv⟩

/-- A member that exists is read under every key that leads to it. -/
theorem readIndex_of_existing (h : existing v key = .ok inner) {key' : Value}
    (hsame : ¬ Apart v key key') : readIndex v key' = .ok inner := by
  rcases existing_cases h with ⟨items, x, n, rfl, rfl, hkey, hn, -, hitem⟩ | ⟨members, rfl, hget⟩
  · have hposition : position? key' = some n := (Classical.not_not.mp hsame).trans hkey
    rcases number_or_member key' with ⟨y, rfl⟩ | ⟨hnone, -⟩
    · rw [readIndex_number, hposition, Option.bind_some, itemAt?, if_pos hn, hitem]
      rfl
    · rw [hnone] at hposition
      cases hposition
  · rw [readIndex_object, Classical.not_not.mp hsame, hget]
    rfl

theorem readPath_cons (h : readIndex v key = .ok inner) (path : List Value) :
    readPath (key :: path) v = readPath path inner := by
  rw [readPath, h]

theorem modifyAt_cons {α : Type} {change : Value → Except Fault (Value × α)}
    (h : existing v key = .ok inner) (path : List Value) : modifyAt change (key :: path) v
      = (modifyAt change path inner).map fun out => (replaceExisting v key out.1, out.2) := by
  rw [modifyAt, h]
  dsimp only
  cases modifyAt change path inner <;> rfl

theorem Grown.cons {inner' : Value} (hold : readIndex v key = .ok inner)
    (hnew : readIndex v' key = .ok inner') (h : Grown path inner inner') :
    Grown (key :: path) v v' := by
  obtain ⟨init, last, items, items', rfl, hlength, hitems, hitems', hgrown⟩ := h
  exact ⟨key :: init, last, items, items', rfl, hlength, (readPath_cons hold init).trans hitems,
    (readPath_cons hnew init).trans hitems', hgrown⟩

/-- Nothing can be told about a number from its members. -/
theorem readPath_number (key : Value) (path : List Value) (x y : Float) :
    readPath (key :: path) (number x) = readPath (key :: path) (number y) := by
  rw [readPath, readPath]
  cases key <;> rfl

theorem readPath_stored (h : Stored v key w v') {key' : Value} (hapart : Apart v key key')
    (path : List Value) :
    readPath (key' :: path) v' = readPath (key' :: path) v ∨ Grown (key' :: path) v v' := by
  rcases h.others hapart with hsame | ⟨hlength, items, items', rfl, rfl, hgrown, hread, hread'⟩
  · exact Or.inl (by rw [readPath, readPath, hsame])
  · cases path with
    | nil => exact Or.inr ⟨[], key', items, items', rfl, hlength, rfl, rfl, hgrown⟩
    | cons key path =>
      rw [readPath_cons hread, readPath_cons hread']
      exact Or.inl (readPath_number key path _ _)

/-- **What is stored at the end of a path is read there**, and paths that part from it read what
    they read before, but for the length of an array that has grown. -/
theorem store_read
    (h : v.modifyAt (fun u => (u.setIndex key w).map fun u' => (u', ())) path = .ok (v', ())) :
    readPath (path ++ [key]) v' = .ok w ∧ ∀ path', Parts (path ++ [key]) path' v →
      readPath path' v' = readPath path' v ∨ Grown path' v v' := by
  induction path generalizing v v' with
  | nil =>
    obtain ⟨u, hset, hu⟩ := exists_of_map_ok h
    cases hu
    have hstored := setIndex_stored hset
    refine ⟨readPath_cons (hstored.read (apart_irrefl v key)) [], fun path' hparts => ?_⟩
    cases path' with
    | nil => exact hparts.elim
    | cons key' path' =>
      rcases hparts with hapart | ⟨_, _, hnone⟩
      · exact readPath_stored hstored hapart path'
      · exact hnone.elim
  | cons k path ih =>
    rw [modifyAt] at h
    split at h
    · cases h
    rename_i inner hinner
    split at h
    · cases h
    rename_i inner' u hchanged
    cases h
    obtain ⟨hread, hothers⟩ := ih hchanged
    obtain ⟨hset, hlength⟩ := setIndex_of_existing hinner inner'
    have hstored := setIndex_stored hset
    refine ⟨(readPath_cons (hstored.read (apart_irrefl v k)) _).trans hread, fun path' hparts => ?_⟩
    cases path' with
    | nil => exact hparts.elim
    | cons key' path' =>
      by_cases hapart : Apart v k key'
      · rcases hstored.others hapart with hsame | ⟨-, items, items', hv, hv', hgrown, -⟩
        · exact Or.inl (by rw [readPath, readPath, hsame])
        · exact absurd (hlength items items' hv hv') (Nat.ne_of_gt hgrown)
      · -- the paths go on together
        have hold := readIndex_of_existing hinner hapart
        have hnew := hstored.read hapart
        rw [readPath_cons hold, readPath_cons hnew]
        refine (hothers path' ?_).imp_right (Grown.cons hold hnew)
        rcases hparts with h | ⟨inner'', hinner'', hparts⟩
        · exact absurd h hapart
        · rw [readIndex_of_existing hinner (apart_irrefl v k)] at hinner''
          cases hinner''
          exact hparts

/-! ## Arrays inside values -/

/-- The value is neither an array nor an object. -/
def isAtom : Value → Bool
  | array _ | object _ => false
  | _ => true

theorem isAtom_readMember (hv : v.isAtom = true) {name : String}
    (h : readMember v name = .ok inner) : inner.isAtom = true := by
  cases v with
  | array items => cases hv
  | object members => cases hv
  | text s =>
    simp only [readMember] at h
    split at h <;> cases h <;> rfl
  | _ => cases h <;> rfl

theorem isAtom_readIndex (hv : v.isAtom = true) (h : readIndex v key = .ok inner) :
    inner.isAtom = true := by
  unfold readIndex at h
  split at h
  · cases hv
  · rename_i s x
    cases hc : charAt? s x with
    | none =>
      rw [hc] at h
      cases h
      rfl
    | some c =>
      rw [hc] at h
      cases h
      simp only [charAt?, Option.bind_eq_some_iff, Option.map_eq_some_iff] at hc
      obtain ⟨_, _, _, _, rfl⟩ := hc
      rfl
  · exact isAtom_readMember hv h

theorem isAtom_readPath (hv : v.isAtom = true) (h : readPath path v = .ok inner) :
    inner.isAtom = true := by
  induction path generalizing v with
  | nil =>
    cases h
    exact hv
  | cons key path ih =>
    rw [readPath] at h
    split at h
    · cases h
    · exact ih (isAtom_readIndex hv ‹_›) h

/-- A name of the language leads to itself, or to something that has no items and no members. -/
theorem readPath_global {name : String} (hglobal : global? name = some v)
    (h : readPath path v = .ok inner) : inner.isAtom = true ∨
      (inner = v ∧ ∃ members, v = object members) := by
  have hnamespace (natives : List Native) (h : readPath path (namespaceOf natives) = .ok inner) :
      inner.isAtom = true ∨
        (inner = namespaceOf natives ∧ ∃ members, namespaceOf natives = object members) := by
    cases path with
    | nil =>
      cases h
      exact Or.inr ⟨rfl, _, rfl⟩
    | cons key path =>
      let members := Dict.ofList (natives.map fun n => (n.name, native n))
      have hatoms : ∀ p ∈ members, p.2.isAtom = true :=
        Dict.forall_ofList (Q := fun v : Value => v.isAtom = true) fun p hp => by
          obtain ⟨n, -, rfl⟩ := List.mem_map.mp hp
          rfl
      rw [namespaceOf, readPath, readIndex_object] at h
      refine Or.inl (isAtom_readPath ?_ h)
      cases hget : Dict.get? members key.display with
      | none => rfl
      | some w => exact Dict.forall_get? (Q := fun v : Value => v.isAtom = true) hatoms hget
  unfold global? at hglobal
  split at hglobal <;> cases hglobal
  all_goals first
    | exact Or.inl (isAtom_readPath rfl h)
    | exact hnamespace _ h

theorem existing_object (members : List (String × Value)) (key : Value) :
    existing (object members) key = match Dict.get? members key.display with
      | some v => .ok v
      | none => .error (.misuse (.missingMember key.display)) := by
  cases key <;> rfl

/-- What leads to an array or to an object exists. -/
theorem existing_of_readPath (h : readIndex v key = .ok inner)
    (hread : readPath path inner = .ok w) (hw : w.isAtom = false) : existing v key = .ok inner := by
  have hinner : ¬ inner.isAtom = true := fun hatom => by
    rw [isAtom_readPath hatom hread] at hw
    cases hw
  cases v with
  | array items =>
    rcases number_or_member key with ⟨x, rfl⟩ | ⟨-, hmember⟩
    · rw [readIndex] at h
      rw [existing]
      cases hitem : (Number.index? items.length x).bind fun i => items[i]? with
      | none =>
        rw [hitem] at h
        cases h
        exact absurd rfl hinner
      | some v =>
        rw [hitem] at h
        exact h
    · rw [hmember] at h
      split at h <;> cases h <;> exact absurd rfl hinner
  | object members =>
    rw [readIndex_object] at h
    rw [existing_object]
    cases hget : Dict.get? members key.display with
    | none =>
      rw [hget] at h
      cases h
      exact absurd rfl hinner
    | some v =>
      rw [hget] at h
      exact h
  | _ => exact absurd (isAtom_readIndex rfl h) hinner

/-- An array or an object that can be read can be changed where it is. -/
theorem modifyAt_of_readPath {α : Type} {change : Value → Except Fault (Value × α)} {u : Value}
    {r : α} (hread : readPath path v = .ok u) (hu : u.isAtom = false)
    (hchange : change u = .ok (w, r)) : ∃ v', modifyAt change path v = .ok (v', r) := by
  induction path generalizing v with
  | nil =>
    cases hread
    exact ⟨w, hchange⟩
  | cons key path ih =>
    rw [readPath] at hread
    split at hread
    · cases hread
    · rename_i inner hinner
      obtain ⟨inner', hinner'⟩ := ih hread
      exact ⟨_, by rw [modifyAt_cons (existing_of_readPath hinner hread hu), hinner']; rfl⟩

/-- To change an array where it is, at the end of a path, is to store another one under the last
    key. -/
theorem modifyAt_eq_store {items : List Value}
    (hread : readPath (path ++ [key]) v = .ok (array items)) (w : Value) :
    v.modifyAt (fun _ => .ok (w, ())) (path ++ [key])
      = v.modifyAt (fun u => (u.setIndex key w).map fun u' => (u', ())) path := by
  induction path generalizing v with
  | nil =>
    rw [List.nil_append, readPath] at hread
    split at hread
    · cases hread
    · rename_i inner hinner
      have hexisting := existing_of_readPath hinner hread rfl
      rw [List.nil_append, modifyAt_cons hexisting, modifyAt, modifyAt,
        (setIndex_of_existing hexisting w).1]
      rfl
  | cons k path ih =>
    rw [List.cons_append, readPath] at hread
    split at hread
    · cases hread
    · rename_i inner hinner
      have hexisting := existing_of_readPath hinner hread rfl
      rw [List.cons_append, modifyAt_cons hexisting, modifyAt_cons hexisting, ih hread]

end

end Value

/-! ## Variables -/

namespace Machine

variable {m m' : Machine} {name : String} {v : Value}

theorem findBinding?_setBinding {b : Binding} (other : String) (v : Value) :
    ∀ {scopes : List Scope}, findBinding? scopes name = some b →
      findBinding? (setBinding scopes name v) other =
        if other = name then some ⟨v, b.constant⟩ else findBinding? scopes other
  | s :: outer, h => by
    rw [findBinding?, List.findSome?_cons] at h
    rw [setBinding]
    cases hs : s.get? name with
    | some b' =>
      rw [hs] at h
      cases h
      dsimp only
      rw [findBinding?, findBinding?, List.findSome?_cons, List.findSome?_cons, Scope.get?_bind]
      by_cases hother : other = name
      · rw [if_pos hother, if_pos hother]
      · rw [if_neg hother, if_neg hother]
    | none =>
      rw [hs] at h
      have ih : findBinding? (setBinding outer name v) other = _ :=
        findBinding?_setBinding other v h
      rw [findBinding?] at ih
      dsimp only
      rw [findBinding?, findBinding?, List.findSome?_cons, List.findSome?_cons, ih]
      by_cases hother : other = name
      · rw [if_pos hother, if_pos hother, hother, hs]
      · rw [if_neg hother, if_neg hother]
        rfl

/-- A variable that has been given a value has it, and the others have theirs. -/
theorem lookup?_setVariable (m : Machine) (name other : String) (v : Value) :
    (m.setVariable name v).lookup? other = if other = name then some v else m.lookup? other := by
  unfold setVariable
  split
  · rename_i b hb
    unfold lookup?
    dsimp only
    rw [findBinding?_setBinding other v hb]
    by_cases hother : other = name
    · rw [if_pos hother, if_pos hother]
    · rw [if_neg hother, if_neg hother]
  · rename_i hb
    unfold lookup? setEnv
    dsimp only
    rw [Dict.get?_insert]
    by_cases hother : other = name
    · rw [if_pos hother, if_pos hother, hother, hb]
    · rw [if_neg hother, if_neg hother]

theorem lookup?_of_changeable? (h : m.changeable? name = some v) : m.lookup? name = some v := by
  unfold changeable? at h
  unfold lookup?
  split at h
  · exact h
  · rw [h]

theorem lookup?_cases (h : m.lookup? name = some v) :
    m.changeable? name = some v ∨ global? name = some v := by
  unfold lookup? at h
  unfold changeable?
  split at h
  · exact Or.inl h
  · split at h
    · cases h
      exact Or.inl ‹_›
    · exact Or.inr h

/-- What is assigned is a variable given a value, unless it is constant. -/
theorem assign_eq (m : Machine) (name : String) (v : Value) :
    m.assign name v = .ok (m.setVariable name v) ∨
      m.assign name v = .error (.constantAssignment name) := by
  unfold assign setVariable
  split
  · split
    · exact Or.inr rfl
    · exact Or.inl rfl
  · split
    · exact Or.inr rfl
    · exact Or.inl rfl

end Machine

/-! ## Slots -/

namespace Slot

/-- The second slot belongs to another variable, or at some key of the first one it leads
    elsewhere. -/
def Parts (s t : Slot) (m : Machine) : Prop :=
  t.root ≠ s.root ∨ ∃ v, m.lookup? s.root = some v ∧ Value.Parts s.path t.path v

/-- The slot is the `length` of an array that has more items in the second state. -/
def Grown (t : Slot) (m m' : Machine) : Prop :=
  ∃ init key items items', t.path = init ++ [key] ∧ key.display = "length" ∧
    Slot.read ⟨t.root, init⟩ m = .ok (.array items) ∧
    Slot.read ⟨t.root, init⟩ m' = .ok (.array items') ∧ items.length < items'.length

variable {s t : Slot} {m m' : Machine} {v w : Value}

theorem read_eq (h : m.lookup? s.root = some v) : s.read m = v.readPath s.path := by
  rw [read, h]

/-- Of a variable that has a value, the slots lead into that value; the slots of the others lead
    where they led. -/
theorem read_setVariable (s : Slot) (m : Machine) (name : String) (w : Value) :
    s.read (m.setVariable name w) = if s.root = name then w.readPath s.path else s.read m := by
  rw [read, Machine.lookup?_setVariable, read]
  by_cases h : s.root = name
  · rw [if_pos h, if_pos h]
  · rw [if_neg h, if_neg h]

/-- A slot that has been written reads what was written, and the slots that part from it read what
    they read before, but for the length of an array that has grown. -/
theorem write_read (h : s.write v m = .ok m') :
    (∃ w, m' = m.setVariable s.root w) ∧ s.read m' = .ok v ∧
      ∀ t : Slot, s.Parts t m → t.read m' = t.read m ∨ t.Grown m m' := by
  obtain ⟨root, path⟩ := s
  rcases List.eq_nil_or_concat path with rfl | ⟨path, key, rfl⟩
  · have hset : m' = m.setVariable root v := by
      rcases m.assign_eq root v with hassign | hassign
      · exact Except.ok.inj (h.symm.trans hassign)
      · cases h.symm.trans hassign
    subst hset
    refine ⟨⟨v, rfl⟩, ?_, fun t hparts => Or.inl ?_⟩
    · rw [read_setVariable, if_pos rfl]
      rfl
    · rw [read_setVariable, if_neg]
      rcases hparts with hroot | ⟨_, _, hnone⟩
      · exact hroot
      · exact hnone.elim
  · rw [write, List.concat_eq_append, List.getLast?_concat] at h
    obtain ⟨⟨n, u⟩, hmodify, hn⟩ := exists_of_map_ok h
    cases hn
    obtain ⟨old, new, hold, hstore, rfl⟩ := modify_cases hmodify
    rw [List.dropLast_concat] at hstore
    have hlookup := Machine.lookup?_of_changeable? hold
    obtain ⟨hread, hothers⟩ := Value.store_read hstore
    refine ⟨⟨new, rfl⟩, ?_, fun t hparts => ?_⟩
    · rw [read_setVariable, if_pos rfl, List.concat_eq_append]
      exact hread
    · by_cases hroot : t.root = root
      · rcases hparts with hother | ⟨v', hv', hparts⟩
        · exact absurd hroot hother
        rw [hlookup] at hv'
        cases hv'
        rw [List.concat_eq_append] at hparts
        rw [read_setVariable, if_pos hroot, read_eq (hroot ▸ hlookup)]
        refine (hothers t.path hparts).imp_right fun hgrown => ?_
        obtain ⟨init, last, items, items', hpath, hlength, hitems, hitems', hlt⟩ := hgrown
        refine ⟨init, last, items, items', hpath, hlength, ?_, ?_, hlt⟩
        · rw [read_eq (s := ⟨t.root, init⟩) (hroot ▸ hlookup)]
          exact hitems
        · rw [read_setVariable, if_pos hroot]
          exact hitems'
      · rw [read_setVariable, if_neg hroot]
        exact Or.inl rfl

/-- An array or an object that can be read in a slot of a variable can be changed there. -/
theorem modify_of_changeable (hroot : m.changeable? s.root = some v)
    (hread : v.readPath s.path = .ok w) (hw : w.isAtom = false) {α : Type}
    (change : Value → Except Fault (Value × α)) {w' : Value} {r : α}
    (hchange : change w = .ok (w', r)) : ∃ v', v.modifyAt change s.path = .ok (v', r) ∧
      s.modify change m = .ok (m.setVariable s.root v', r) := by
  obtain ⟨v', hv'⟩ := Value.modifyAt_of_readPath hread hw hchange
  refine ⟨v', hv', ?_⟩
  rw [modify, hroot]
  dsimp only
  rw [hv']

/-- An array that can be read in a slot is held in it, and can be changed there. -/
theorem modify_of_array {items : List Value} (h : s.read m = .ok (.array items)) {α : Type}
    (change : Value → Except Fault (Value × α)) {r : α}
    (hchange : change (.array items) = .ok (w, r)) :
    ∃ v v', m.changeable? s.root = some v ∧ v.readPath s.path = .ok (.array items) ∧
      v.modifyAt change s.path = .ok (v', r) ∧
      s.modify change m = .ok (m.setVariable s.root v', r) := by
  rw [read] at h
  split at h
  · cases h
  rename_i v hlookup
  rcases Machine.lookup?_cases hlookup with hv | hglobal
  · obtain ⟨v', hv', hmodify⟩ := modify_of_changeable hv h rfl change hchange
    exact ⟨v, v', hv, h, hv', hmodify⟩
  · rcases Value.readPath_global hglobal h with hatom | ⟨rfl, members, hmembers⟩
    · cases hatom
    · cases hmembers

theorem held_of_array {items : List Value} (h : s.read m = .ok (.array items)) :
    s.held m = .ok (.array items) := by
  obtain ⟨v, v', -, -, -, hmodify⟩ := modify_of_array h (fun v => .ok (v, v)) rfl
  rw [held, hmodify]
  rfl

/-- To change an array in a slot is to write the slot, unless it is a constant variable. -/
theorem replace_array {items : List Value} (h : s.read m = .ok (.array items)) (w : Value) :
    ∃ m', s.modify (fun _ => .ok (w, ())) m = .ok (m', ()) ∧ s.read m' = .ok w ∧
      (s.write w m = .ok m' ∨ (s.path = [] ∧ m' = m.setVariable s.root w ∧
        s.write w m = .error (.constantAssignment s.root))) := by
  obtain ⟨v, v', hv, hread, hchange, hmodify⟩ :=
    modify_of_array h (fun _ => .ok (w, ())) rfl
  obtain ⟨root, path⟩ := s
  rcases List.eq_nil_or_concat path with rfl | ⟨path, key, rfl⟩
  · cases hchange
    refine ⟨_, hmodify, ?_, ?_⟩
    · rw [read_setVariable, if_pos rfl]
      rfl
    · exact (m.assign_eq root w).imp_right fun hconst => ⟨rfl, rfl, hconst⟩
  · dsimp only at hread hchange hv
    rw [List.concat_eq_append] at hread hchange hmodify ⊢
    have hwrite : Slot.write ⟨root, path ++ [key]⟩ w m = .ok (m.setVariable root v') := by
      rw [Value.modifyAt_eq_store hread] at hchange
      rw [write, List.getLast?_concat, List.dropLast_concat]
      dsimp only
      rw [modify, hv]
      dsimp only
      rw [hchange]
      rfl
    exact ⟨_, hmodify, (write_read hwrite).2.1, Or.inl hwrite⟩

/-! ## In the evaluator -/

open Effect

variable {pos mpos : Position} {maxDepth steps : Nat} {items vs : List Value}

theorem writeSlot_of_ok (h : s.write v m = .ok m') : writeSlot pos s v m = .done () m' := by
  rw [writeSlot, h]

theorem writeSlot_of_error {fault : Fault} (h : s.write v m = .error fault) :
    writeSlot pos s v m = .failed ⟨fault, pos⟩ m := by
  rw [writeSlot, h]

/-- A method that changes arrays, called on a place that holds one. -/
theorem eval_mutate {object : Expr} {property : String} {place : Place} {args : List Expr}
    {start before : Machine} (hproperty : property = "push" ∨ property = "pop")
    (hplace : object.toPlace? = some place)
    (hresolve : resolve maxDepth steps place start = .done s before)
    (hargs : evalAll maxDepth steps args before = .done vs m)
    (hread : s.read m = .ok (.array items)) :
    eval maxDepth (steps + 1) (.call pos (.member mpos object property) args) start
      = changeArray pos s (property == "pop") items vs m := by
  have hmutated : mutatedPlace? object property = some place := by
    rw [mutatedPlace?, if_pos hproperty, hplace]
  rw [eval, hmutated]
  dsimp only
  rw [bind_of_done hresolve, bind_of_done hargs, get_bind, held_of_array hread]
  rfl

theorem changeArray_replace (hread : s.read m = .ok (.array items)) (pop : Bool) :
    let items' := if pop then items.dropLast else items ++ vs
    let result : Value :=
      if pop then items.getLast?.getD .undefined else .number (Number.ofCount items'.length)
    ∃ m', changeArray pos s pop items vs m = .done result m' ∧ s.read m' = .ok (.array items') ∧
      (writeSlot pos s (.array items') m = .done () m' ∨
        (s.path = [] ∧ m' = m.setVariable s.root (.array items') ∧
          writeSlot pos s (.array items') m = .failed ⟨.constantAssignment s.root, pos⟩ m)) := by
  intro items' result
  obtain ⟨m', hmodify, hread', hwrite⟩ := replace_array hread (.array items')
  refine ⟨m', ?_, hread', ?_⟩
  · rw [changeArray, hmodify]
  · exact hwrite.imp writeSlot_of_ok fun ⟨hpath, hm', herror⟩ =>
      ⟨hpath, hm', writeSlot_of_error herror⟩

/-- **Slots obey the lens laws.**  Take any state and any slot.  When a value is written to the
    slot, only the variable of the slot changes; the slot reads that value afterwards, and every
    slot of another variable, or of the same one where some key leads elsewhere, reads what it read
    before, but for the `length` of an array that has grown.  When the slot cannot be written, the
    state stays as it is.  If the slot holds an array when the arguments of a `push` or a `pop` on
    it have been evaluated, the call acts as the write of the array with the arguments behind it,
    or without its last item, and gives the new length, or the last item if there is one.  Only a
    constant variable itself, which cannot be written, is changed so too. -/
theorem lens_laws (s : Slot) (m : Machine) (pos : Position) :
    (∀ v m', writeSlot pos s v m = .done () m' →
      (∃ w, m' = m.setVariable s.root w) ∧ s.read m' = .ok v ∧
      ∀ t : Slot, s.Parts t m → t.read m' = t.read m ∨ t.Grown m m') ∧
    (∀ v e m', writeSlot pos s v m = .failed e m' → m' = m) ∧
    ∀ items maxDepth steps mpos object property place args vs start before,
      property = "push" ∨ property = "pop" → object.toPlace? = some place →
      resolve maxDepth steps place start = .done s before →
      evalAll maxDepth steps args before = .done vs m → s.read m = .ok (.array items) →
      let items' := if property == "pop" then items.dropLast else items ++ vs
      let result : Value :=
        if property == "pop" then items.getLast?.getD .undefined
        else .number (Number.ofCount items'.length)
      ∃ m', eval maxDepth (steps + 1) (.call pos (.member mpos object property) args) start
          = .done result m' ∧
        s.read m' = .ok (.array items') ∧
        (writeSlot pos s (.array items') m = .done () m' ∨
          (s.path = [] ∧ m' = m.setVariable s.root (.array items') ∧
            writeSlot pos s (.array items') m
              = .failed ⟨.constantAssignment s.root, pos⟩ m)) := by
  refine ⟨fun v m' h => ?_, fun v e m' h => ?_, fun items maxDepth steps mpos object property
    place args vs start before hproperty hplace hresolve hargs hread => ?_⟩
  · unfold writeSlot at h
    split at h <;> cases h
    exact write_read ‹_›
  · unfold writeSlot at h
    split at h <;> cases h
    rfl
  · rw [eval_mutate hproperty hplace hresolve hargs hread]
    exact changeArray_replace hread (property == "pop")

/-- A member of an object is pushed to, and then written. -/
theorem lens_laws_member :
    let m : Machine := .start 1 [("o", .object [("n", .null), ("xs", .array [.text "a"])])]
    let s : Slot := ⟨"o", [.text "xs"]⟩
    let place : Place := .member ⟨0, 1⟩ (.name ⟨0, 0⟩ "o") "xs"
    let items : List Value := [.text "a", .text "b"]
    (∃ m', eval 64 5 (.call ⟨0, 4⟩ (.member ⟨0, 4⟩ place.toExpr "push") [.text ⟨0, 10⟩ "b"]) m
        = .done (.number (Number.ofCount 2)) m' ∧ s.read m' = .ok (.array items)) ∧
    ∃ m', writeSlot ⟨0, 0⟩ s (.array items) m = .done () m' ∧ s.read m' = .ok (.array items) ∧
      Slot.read ⟨"o", [.text "n"]⟩ m' = .ok .null := by
  intro m s place items
  refine ⟨?_, _, rfl, ((lens_laws s m ⟨0, 0⟩).1 _ _ rfl).2.1, ?_⟩
  · obtain ⟨m', heval, hread, -⟩ := (lens_laws s m ⟨0, 4⟩).2.2 [.text "a"] 64 4 ⟨0, 4⟩ place.toExpr
      "push" place [.text ⟨0, 10⟩ "b"] [.text "b"] m m (Or.inl rfl) rfl rfl rfl rfl
    exact ⟨m', heval, hread⟩
  · have hparts : s.Parts ⟨"o", [.text "n"]⟩ m :=
      Or.inr ⟨_, rfl, Or.inl fun h => absurd h (by decide)⟩
    rcases ((lens_laws s m ⟨0, 0⟩).1 (.array items) _ rfl).2.2 _ hparts with h | hgrown
    · exact h
    · obtain ⟨init, key, items, items', hpath, hlength, -⟩ := hgrown
      cases init with
      | nil =>
        cases hpath
        exact absurd hlength (by decide)
      | cons k init =>
        cases init <;> cases hpath

/-- An array is pushed to through a constant, which cannot be written. -/
theorem push_constant :
    let script := "const xs = [\"a\"]; xs.push(\"b\");"
    let first : Stmt := .declare .constDecl
      [⟨"xs", ⟨0, 6⟩, some (.array ⟨0, 11⟩ [.text ⟨0, 12⟩ "a"])⟩]
    let call : Expr := .call ⟨0, 18⟩ (.member ⟨0, 18⟩ (.name ⟨0, 18⟩ "xs") "push")
      [.text ⟨0, 26⟩ "b"]
    let s : Slot := ⟨"xs", []⟩
    let items : List Value := [.text "a", .text "b"]
    parse script = .ok [first, .expr call] ∧
    ∃ m m', exec 64 98 first (.start 1 []) = .done .next m ∧ s.read m = .ok (.array [.text "a"]) ∧
      writeSlot ⟨0, 18⟩ s (.array items) m = .failed ⟨.constantAssignment "xs", ⟨0, 18⟩⟩ m ∧
      eval 64 97 call m = .done (.number (Number.ofCount 2)) m' ∧
      s.read m' = .ok (.array items) ∧
      execute ⟨64, 100⟩ script [] = .done () [("xs", .array items)] := by
  intro script first call s items
  have hlexemes : lexemes script = .ok
      [⟨.keyword .kwConst, ⟨0, 0⟩, false⟩, ⟨.name "xs", ⟨0, 6⟩, false⟩,
       ⟨.symbol .assign, ⟨0, 9⟩, false⟩, ⟨.symbol .leftBracket, ⟨0, 11⟩, false⟩,
       ⟨.text "a", ⟨0, 12⟩, false⟩, ⟨.symbol .rightBracket, ⟨0, 15⟩, false⟩,
       ⟨.symbol .semicolon, ⟨0, 16⟩, false⟩, ⟨.name "xs", ⟨0, 18⟩, false⟩,
       ⟨.symbol .dot, ⟨0, 20⟩, false⟩, ⟨.name "push", ⟨0, 21⟩, false⟩,
       ⟨.symbol .leftParen, ⟨0, 25⟩, false⟩, ⟨.text "b", ⟨0, 26⟩, false⟩,
       ⟨.symbol .rightParen, ⟨0, 29⟩, false⟩, ⟨.symbol .semicolon, ⟨0, 30⟩, false⟩] := by
    decide +kernel
  have hparse : parse script = .ok [first, .expr call] := by
    rw [parse, hlexemes]
    rfl
  refine ⟨hparse, _, _, rfl, rfl, rfl, rfl, rfl, ?_⟩
  rw [execute, hparse]
  rfl

end Slot

end Stencil.Script
