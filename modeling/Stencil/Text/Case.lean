/-
  Upper and lower case of texts in any script.

  Each character is replaced by its mapping, which may be several characters.  One letter looks
  around itself: a capital sigma at the end of a word becomes the final small sigma.
-/
import Stencil.Text.CaseTable

namespace Stencil.Text

/-! ## One character -/

/-- The mapping of `c` under a table of runs and a table of expansions, `c` itself if in neither. -/
def mapCase (runs : List CaseRun) (expansions : List (Nat × List Nat)) (c : Char) : List Char :=
  match expansions.find? (fun e => e.1 == c.toNat) with
  | some e => e.2.map Char.ofNat
  | none =>
    match runs.find? (fun r => r.covers c.toNat) with
    | some r => [Char.ofNat (r.image c.toNat)]
    | none => [c]

def upperChar (c : Char) : List Char :=
  if c.toNat < 0x80 then [c.toUpper] else mapCase upperRuns upperExpansions c

def lowerChar (c : Char) : List Char :=
  if c.toNat < 0x80 then [c.toLower] else mapCase lowerRuns lowerExpansions c

/-! ## A whole text -/

def capitalSigma : Char := Char.ofNat 0x3A3

def finalSigma : Char := Char.ofNat 0x3C2

/-- Whether the nearest character that does not merely accompany a letter is a cased letter. -/
def facesCased (text : List Char) : Bool :=
  match text.dropWhile fun c => caseIgnorableRanges.contains c.toNat with
  | [] => false
  | c :: _ => casedRanges.contains c.toNat

def upper (text : List Char) : List Char := text.flatMap upperChar

/-- Lowercase of `text` that stands after `before`, the latter in reverse. -/
def lowerAfter (before : List Char) : List Char → List Char
  | [] => []
  | c :: rest =>
    let mapped :=
      if c = capitalSigma then
        if facesCased before && !facesCased rest then [finalSigma] else lowerChar c
      else lowerChar c
    mapped ++ lowerAfter (c :: before) rest

def lower (text : List Char) : List Char := lowerAfter [] text

example : upper ['a', Char.ofNat 0xDF] = ['A', 'S', 'S'] := by decide +kernel
example : lower [Char.ofNat 0x391, capitalSigma] = [Char.ofNat 0x3B1, finalSigma] := by
  decide +kernel

end Stencil.Text
