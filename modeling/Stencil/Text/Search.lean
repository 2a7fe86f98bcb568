/-
  Finding a text inside a text, cutting at it and putting another in its place.

  Occurrences are taken from the left and do not overlap.
-/

namespace Stencil.Text

/-- What stands before and behind the first occurrence of `needle`. -/
def find? (needle : List Char) (text : List Char) : Option (List Char × List Char) :=
  if needle.isPrefixOf text then some ([], text.drop needle.length)
  else
    match text with
    | [] => none
    | c :: rest => (find? needle rest).map fun (before, behind) => (c :: before, behind)

/-- Whether `needle` occurs. -/
def contains (needle : List Char) (text : List Char) : Bool :=
  needle.isPrefixOf text ||
    match text with
    | [] => false
    | _ :: rest => contains needle rest

/-- The pieces between the occurrences of the separator, which is not empty; the first `skipped`
    characters belong to an occurrence already found. -/
def split (separator : List Char) (skipped : Nat) (text : List Char) : List (List Char) :=
  match skipped, text with
  | _, [] => [[]]
  | skipped + 1, _ :: rest => split separator skipped rest
  | 0, c :: rest =>
    if separator.isPrefixOf (c :: rest) then [] :: split separator (separator.length - 1) rest
    else
      match split separator 0 rest with
      | [] => [[c]]
      | piece :: others => (c :: piece) :: others

/-- The text with `new` for every occurrence of `needle`; where `needle` is empty, it stands before
    every character and at the end. -/
def replaceAll (needle new : List Char) (skipped : Nat) (text : List Char) : List Char :=
  match skipped, text with
  | _, [] => if needle.isEmpty then new else []
  | skipped + 1, _ :: rest => replaceAll needle new skipped rest
  | 0, c :: rest =>
    if needle.isEmpty then new ++ c :: replaceAll needle new 0 rest
    else if needle.isPrefixOf (c :: rest) then
      new ++ replaceAll needle new (needle.length - 1) rest
    else c :: replaceAll needle new 0 rest

/-- The text with `new` for the first occurrence of `needle`. -/
def replaceFirst (needle new text : List Char) : List Char :=
  match find? needle text with
  | some (before, behind) => before ++ new ++ behind
  | none => text

/-- `s` written `n` times: half of them twice, and once more where `n` is odd. -/
def repeated (s : String) (n : Nat) : String :=
  if n = 0 then ""
  else
    let half := repeated s (n / 2)
    if n % 2 = 0 then half ++ half else half ++ half ++ s

theorem toList_repeated (s : String) (n : Nat) :
    (repeated s n).toList = (List.replicate n s.toList).flatten := by
  induction n using Nat.strongRecOn with
  | ind n ih =>
    have add (a b : Nat) : (List.replicate (a + b) s.toList).flatten
        = (List.replicate a s.toList).flatten ++ (List.replicate b s.toList).flatten := by
      rw [← List.replicate_append_replicate, List.flatten_append]
    unfold repeated
    split
    · simp_all
    · have half := ih (n / 2) (by omega)
      split
      · rw [show n = n / 2 + n / 2 by omega, add, ← half, ← show n = n / 2 + n / 2 by omega]
        simp
      · rw [show n = n / 2 + n / 2 + 1 by omega, add, add, ← half,
          ← show n = n / 2 + n / 2 + 1 by omega]
        simp

/-- The first `length` characters of `fill` written over and over. -/
def filling (fill : String) (length : Nat) : String :=
  repeated fill (length / fill.length)
    ++ String.ofList (fill.toList.take (length % fill.length))

example : split [','] 0 ['a', ',', ',', 'b'] = [['a'], [], ['b']] := by decide
example : split ['a', 'a'] 0 ['a', 'a', 'a'] = [[], ['a']] := by decide
example : replaceAll [] ['-'] 0 ['a', 'b'] = ['-', 'a', '-', 'b', '-'] := by decide
example : replaceFirst ['b'] ['x', 'y'] ['a', 'b', 'b'] = ['a', 'x', 'y', 'b'] := by decide
example : filling "ab" 5 = "ababa" := by decide +kernel

end Stencil.Text
