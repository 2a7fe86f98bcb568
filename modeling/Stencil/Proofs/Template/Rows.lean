/-
  The rows of a template's script, and the map that leads from them back to the tokens.

  Every token's piece ends in a line break, so it takes at least one row, and the rows in which the
  pieces begin ascend.  A row is looked up by the entries of the map that count for it: they stand
  in front of those that do not, and the last of them is the answer (`origin?_of_parted`), however
  it is searched for.  The row of any character of the script leads to the token whose piece the
  character lies in (`origin?_piece`), and with this the whole map is known (`Exact`).
-/
import Stencil.Proofs.Text.Passes
import Stencil.Template.Fragment

namespace Stencil

/-- A text has a line break for every row that it takes. -/
theorem exists_newline_in_row {text : List Char} {row : Nat} (h : row < text.count '\n') :
    ∃ front back, text = front ++ '\n' :: back ∧ front.count '\n' = row := by
  induction text generalizing row with
  | nil => simp at h
  | cons c text ih =>
    by_cases hc : c = '\n'
    · subst hc
      rw [List.count_cons_self] at h
      cases row with
      | zero => exact ⟨[], text, rfl, rfl⟩
      | succ row =>
        have hlt : row < text.count '\n' := by omega
        obtain ⟨front, back, htext, hrow⟩ := ih hlt
        exact ⟨'\n' :: front, back, by rw [htext]; rfl, by rw [List.count_cons_self, hrow]⟩
    · rw [List.count_cons_of_ne hc] at h
      obtain ⟨front, back, htext, hrow⟩ := ih h
      exact ⟨c :: front, back, by rw [htext]; rfl, by rw [List.count_cons_of_ne hc, hrow]⟩

namespace Token

/-! ## One piece -/

/-- Every piece ends in a line break. -/
theorem exists_piece_eq (t : Token) : ∃ line, t.piece = line ++ ['\n'] := by
  unfold piece
  cases t.kind with
  | chunk =>
    exact ⟨Script.Native.append.name.toList ++ '(' :: _ ++ [')', ';'], by simp [appendCall]; rfl⟩
  | expression =>
    exact ⟨Script.Native.append.name.toList ++ '(' :: _ ++ [')', ';'], by simp [appendCall]; rfl⟩
  | line => exact ⟨_, rfl⟩
  | block => exact ⟨_, rfl⟩

theorem getLast?_piece (t : Token) : t.piece.getLast? = some '\n' := by
  obtain ⟨line, h⟩ := t.exists_piece_eq
  rw [h, List.getLast?_append]
  rfl

/-- Every piece takes a row. -/
theorem rows_pos (t : Token) : 0 < t.rows :=
  List.count_pos_iff.mpr (List.mem_of_getLast? t.getLast?_piece)

/-- Behind a piece a new row begins. -/
theorem after_piece (t : Token) : Position.start.after t.piece = ⟨t.rows, 0⟩ := by
  obtain ⟨line, h⟩ := t.exists_piece_eq
  rw [rows, h, Position.after_line _ line (by simp)]
  simp [Position.start]

/-- In front of a character of a piece there are fewer line breaks than in the whole piece. -/
theorem count_front_lt {t : Token} {front back : List Char} {c : Char}
    (h : t.piece = front ++ c :: back) : front.count '\n' < t.rows := by
  have hlast : (c :: back).getLast? = some '\n' := by
    have := t.getLast?_piece
    rwa [h, List.getLast?_append, List.getLast?_eq_some_getLast (List.cons_ne_nil c back),
      Option.some_or] at this
  have hpos : 0 < (c :: back).count '\n' := List.count_pos_iff.mpr (List.mem_of_getLast? hlast)
  rw [rows, h, List.count_append]
  omega

/-- Every character of a script lies in the piece of one of the tokens. -/
theorem exists_of_flatMap_piece {tokens : List Token} {front back : List Char} {c : Char}
    (h : tokens.flatMap piece = front ++ c :: back) :
    ∃ before t rest front' back', tokens = before ++ t :: rest ∧ t.piece = front' ++ c :: back' ∧
      front = before.flatMap piece ++ front' := by
  induction tokens generalizing front with
  | nil => simp at h
  | cons t tokens ih =>
    rw [List.flatMap_cons, List.append_eq_append_iff] at h
    -- the character lies behind the first piece, or in it
    rcases h with ⟨part, hfront, hrest⟩ | ⟨part, hpiece, hrest⟩
    · obtain ⟨before, t', rest, front', back', htokens, hpiece, hpart⟩ := ih hrest
      refine ⟨t :: before, t', rest, front', back', by rw [htokens]; rfl, hpiece, ?_⟩
      rw [hfront, hpart, List.flatMap_cons, List.append_assoc]
    · cases part with
      | nil =>
        have hrest' : tokens.flatMap piece = [] ++ c :: back := hrest.symm
        obtain ⟨before, t', rest, front', back', htokens, hpiece', hpart⟩ := ih hrest'
        refine ⟨t :: before, t', rest, front', back', by rw [htokens]; rfl, hpiece', ?_⟩
        rw [List.flatMap_cons, hpiece, List.append_nil, List.append_assoc, ← hpart, List.append_nil]
      | cons c' part =>
        obtain ⟨rfl, -⟩ := List.cons.inj hrest
        exact ⟨[], t, tokens, front, part, rfl, hpiece, rfl⟩

end Token

namespace Fragment

/-! ## All pieces -/

theorem toList_code (tokens : List Token) :
    (ofTokens tokens).code.toList = tokens.flatMap Token.piece := by
  rw [ofTokens, String.toList_ofList]

theorem toList_code_singleton (t : Token) : (ofTokens [t]).code.toList = t.piece := by
  rw [toList_code, List.flatMap_singleton]

/-! ## The rows in which the pieces begin -/

/-- The row in which the piece behind the given ones begins. -/
def rowBehind (tokens : List Token) : Nat := (tokens.flatMap Token.piece).count '\n'

@[simp] theorem rowBehind_nil : rowBehind [] = 0 := rfl

@[simp] theorem rowBehind_cons (t : Token) (tokens : List Token) :
    rowBehind (t :: tokens) = t.rows + rowBehind tokens := by
  rw [rowBehind, List.flatMap_cons, List.count_append]
  rfl

/-- Each token has the entry of its first row. -/
theorem originsFrom_eq (n : Nat) (tokens : List Token) :
    originsFrom n tokens
      = tokens.mapIdx fun i t => (n + rowBehind (tokens.take i), t.pos) := by
  induction tokens generalizing n with
  | nil => rfl
  | cons t tokens ih =>
    rw [originsFrom, ih, List.mapIdx_cons]
    simp only [List.take_zero, List.take_succ_cons, rowBehind_nil, rowBehind_cons, Nat.add_assoc,
      Nat.add_zero]

theorem originsFrom_append (n : Nat) (before rest : List Token) :
    originsFrom n (before ++ rest)
      = originsFrom n before ++ originsFrom (n + rowBehind before) rest := by
  induction before generalizing n with
  | nil => rfl
  | cons t before ih => rw [List.cons_append, originsFrom, ih, originsFrom, rowBehind_cons,
      Nat.add_assoc, List.cons_append]

/-- The entries of a part of the script lie in the rows that the part takes. -/
theorem row_of_mem_originsFrom {n : Nat} {tokens : List Token} {o : Nat × Position}
    (h : o ∈ originsFrom n tokens) : n ≤ o.1 ∧ o.1 < n + rowBehind tokens := by
  induction tokens generalizing n with
  | nil => simp [originsFrom] at h
  | cons t tokens ih =>
    have hpos := t.rows_pos
    rw [rowBehind_cons]
    rcases List.mem_cons.mp h with rfl | h
    · exact ⟨Nat.le_refl n, by omega⟩
    · have := ih h
      omega

/-- The rows ascend, because every piece takes one. -/
theorem originsFrom_ascending (n : Nat) (tokens : List Token) :
    (originsFrom n tokens).Pairwise fun o o' => o.1 < o'.1 := by
  induction tokens generalizing n with
  | nil => exact .nil
  | cons t tokens ih =>
    have hpos := t.rows_pos
    refine .cons (fun o ho => ?_) (ih (n + t.rows))
    have := (row_of_mem_originsFrom ho).1
    show n < o.1
    omega

theorem getLast?_originsFrom (n : Nat) (tokens : List Token) :
    (originsFrom n tokens).getLast?.map Prod.snd = tokens.getLast?.map Token.pos := by
  induction tokens generalizing n with
  | nil => rfl
  | cons t tokens ih =>
    have hrest := ih (n + t.rows)
    rw [originsFrom, List.getLast?_cons, List.getLast?_cons]
    cases tokens with
    | nil => rfl
    | cons t' tokens => simpa [originsFrom, List.getLast?_cons] using hrest

/-! ## Looking up a row -/

/-- The entries that count for a row are a front part of the map, and the last of them is the
    answer. -/
theorem origin?_of_parted {f : Fragment} {row : Nat} {front back : List (Nat × Position)}
    (h : f.origins = front ++ back) (hfront : ∀ o ∈ front, o.1 ≤ row)
    (hback : ∀ o ∈ back, row < o.1) : f.origin? row = front.getLast?.map Prod.snd := by
  have hstop : back.takeWhile (fun o => decide (o.1 ≤ row)) = [] := by
    cases back with
    | nil => rfl
    | cons o back =>
      have := hback o List.mem_cons_self
      exact List.takeWhile_cons_of_neg (by simp; omega)
  rw [origin?, h, List.takeWhile_append_of_pos fun o ho => by simpa using hfront o ho, hstop,
    List.append_nil]

/-- Where the rows of a map ascend, it can be parted at every row. -/
theorem exists_parted {origins : List (Nat × Position)}
    (h : origins.Pairwise fun o o' => o.1 < o'.1) (row : Nat) :
    ∃ front back, origins = front ++ back ∧ (∀ o ∈ front, o.1 ≤ row) ∧ ∀ o ∈ back, row < o.1 := by
  induction origins with
  | nil => exact ⟨[], [], rfl, by simp, by simp⟩
  | cons o origins ih =>
    obtain ⟨hlater, hrest⟩ := List.pairwise_cons.mp h
    by_cases ho : o.1 ≤ row
    · obtain ⟨front, back, rfl, hfront, hback⟩ := ih hrest
      refine ⟨o :: front, back, rfl, fun o' ho' => ?_, hback⟩
      rcases List.mem_cons.mp ho' with rfl | ho'
      · exact ho
      · exact hfront o' ho'
    · refine ⟨[], o :: origins, rfl, by simp, fun o' ho' => ?_⟩
      rcases List.mem_cons.mp ho' with rfl | ho'
      · omega
      · have := hlater o' ho'
        omega

/-- **The map of rows leads from a character to the token whose piece it lies in.** -/
theorem origin?_piece {t : Token} {front back : List Char} {c : Char}
    (h : t.piece = front ++ c :: back) (before rest : List Token) :
    (ofTokens (before ++ t :: rest)).origin?
      (Position.start.after (before.flatMap Token.piece ++ front)).row = some t.pos := by
  have hlt := Token.count_front_lt h
  have hrow : (Position.start.after (before.flatMap Token.piece ++ front)).row
      = rowBehind before + front.count '\n' := by
    rw [Position.row_after, List.count_append, Position.start, Nat.zero_add]
    rfl
  have horigins : (ofTokens (before ++ t :: rest)).origins
      = (originsFrom 0 before ++ [(rowBehind before, t.pos)])
        ++ originsFrom (rowBehind before + t.rows) rest := by
    have := originsFrom_append 0 before (t :: rest)
    rw [Nat.zero_add, originsFrom] at this
    rw [ofTokens, this, List.append_assoc]
    rfl
  rw [hrow, origin?_of_parted horigins, List.getLast?_append]
  · rfl
  · intro o ho
    rcases List.mem_append.mp ho with ho | ho
    · have := (row_of_mem_originsFrom ho).2
      omega
    · rw [List.mem_singleton.mp ho]
      exact Nat.le_add_right _ _
  · intro o ho
    have := (row_of_mem_originsFrom ho).1
    omega

/-- The row of the script belongs to the piece of the token: one of its characters stands there. -/
def RowOf (tokens : List Token) (row : Nat) (t : Token) : Prop :=
  ∃ before rest front c back, tokens = before ++ t :: rest ∧ t.piece = front ++ c :: back ∧
    row = (Position.start.after (before.flatMap Token.piece ++ front)).row

/-- Every row of the script belongs to one of the pieces. -/
theorem exists_rowOf {tokens : List Token} {row : Nat}
    (h : row < (ofTokens tokens).code.toList.count '\n') : ∃ t, RowOf tokens row t := by
  obtain ⟨front, back, htext, hrow⟩ := exists_newline_in_row h
  rw [toList_code] at htext
  obtain ⟨before, t, rest, front', back', htokens, hpiece, hfront⟩ :=
    Token.exists_of_flatMap_piece htext
  refine ⟨t, before, rest, front', '\n', back', htokens, hpiece, ?_⟩
  rw [← hfront, Position.row_after, hrow, Position.start, Nat.zero_add]

/-- Behind the last row the last token counts. -/
theorem origin?_behind {tokens : List Token} {row : Nat}
    (h : (ofTokens tokens).code.toList.count '\n' ≤ row) :
    (ofTokens tokens).origin? row = tokens.getLast?.map Token.pos := by
  rw [toList_code] at h
  have hall : ∀ o ∈ originsFrom 0 tokens, o.1 ≤ row := by
    intro o ho
    have := (row_of_mem_originsFrom ho).2
    rw [rowBehind] at this
    omega
  rw [← getLast?_originsFrom 0 tokens]
  exact origin?_of_parted (List.append_nil _).symm hall (by simp)

/-- What it takes for a script to be that of the tokens with an exact map of its rows. -/
structure Exact (tokens : List Token) (f : Fragment) : Prop where
  /-- The script is the pieces of the tokens, one behind the other, -/
  code_eq : f.code.toList = tokens.flatMap Token.piece
  /-- and each of them ends in a line break. -/
  ends : ∀ t ∈ tokens, t.piece.getLast? = some '\n'
  /-- The map has for each token the number of line breaks in the pieces before its own. -/
  origins_eq : f.origins
    = tokens.mapIdx fun i t => (((tokens.take i).flatMap Token.piece).count '\n', t.pos)
  ascending : f.origins.Pairwise fun o o' => o.1 < o'.1
  /-- Every row belongs to a piece, -/
  covered : ∀ row < f.code.toList.count '\n', ∃ t, RowOf tokens row t
  /-- and leads to the token of each piece that it belongs to. -/
  origin?_row : ∀ row t, RowOf tokens row t → f.origin? row = some t.pos
  origin?_end : ∀ row, f.code.toList.count '\n' ≤ row →
    f.origin? row = tokens.getLast?.map Token.pos
  origin?_none : ∀ row, f.origin? row = none ↔ tokens = []
  /-- The entries at or above a row stand in front of those below it, so that any search for the
      last of them finds the answer. -/
  parted : ∀ row, ∃ front back, f.origins = front ++ back ∧ (∀ o ∈ front, o.1 ≤ row) ∧
    (∀ o ∈ back, row < o.1) ∧ f.origin? row = front.getLast?.map Prod.snd

/-- **The map of rows is exact**, whatever the tokens are. -/
theorem ofTokens_exact (tokens : List Token) : Exact tokens (ofTokens tokens) where
  code_eq := toList_code tokens
  ends t _ := t.getLast?_piece
  origins_eq := by
    have := originsFrom_eq 0 tokens
    simp only [Nat.zero_add] at this
    exact this
  ascending := originsFrom_ascending 0 tokens
  covered _ h := exists_rowOf h
  origin?_row := by
    rintro row t ⟨before, rest, front, c, back, rfl, hpiece, rfl⟩
    exact origin?_piece hpiece before rest
  origin?_end _ h := origin?_behind h
  origin?_none row := by
    by_cases h : (ofTokens tokens).code.toList.count '\n' ≤ row
    · rw [origin?_behind h, Option.map_eq_none_iff, List.getLast?_eq_none_iff]
    · obtain ⟨t, before, rest, front, c, back, rfl, hpiece, rfl⟩ := exists_rowOf (Nat.not_le.mp h)
      rw [origin?_piece hpiece before rest]
      simp
  parted row := by
    obtain ⟨front, back, h, hfront, hback⟩ := exists_parted (originsFrom_ascending 0 tokens) row
    exact ⟨front, back, h, hfront, hback, origin?_of_parted h hfront hback⟩

end Fragment

end Stencil
