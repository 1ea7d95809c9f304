import Transact.Text.CasedRanges
import Transact.Text.IgnorableRanges
import Transact.Text.LowerRuns

/-!
# Lower case

Full Unicode lower-casing. Names that differ in letter case only have the same lower case, which is
how the library compares them.
-/

set_option autoImplicit false

namespace Transact.Text

/-- `n` lies in one of the closed ranges. -/
def inRanges (ranges : List (Nat × Nat)) (n : Nat) : Bool :=
  ranges.any fun (lo, hi) => lo ≤ n && n ≤ hi

/-- A letter with a case, or a character that counts as one. -/
def isCased (c : Char) : Bool :=
  if c.toNat < 128 then c.isAlpha else inRanges casedRanges c.toNat

/-- A character that is passed over when the neighbours of a letter are looked for. -/
def isIgnorable (c : Char) : Bool :=
  if c.toNat < 128 then
    c.toNat == 0x27 || c == '.' || c == ':' || c == '^' || c.toNat == 0x60
  else inRanges ignorableRanges c.toNat

/-- The first character that is not passed over is cased. -/
def casedAhead (cs : List Char) : Bool :=
  match cs.dropWhile isIgnorable with
  | [] => false
  | c :: _ => isCased c

/-- The lower case of a character that stands for itself, whatever its neighbours. -/
def lowerChar (c : Char) : List Char :=
  if c.toNat < 128 then [c.toLower]
  else if c.toNat = 0x130 then ['i', Char.ofNat 0x307]
  else
    match lowerRuns.find? (·.covers c.toNat) with
    | some run => [Char.ofNat ((c.toNat : Int) + run.shift).toNat]
    | none => [c]

/-- A capital sigma is final when a cased letter stands before it and none after it. `before` is the
text in front of it, read backwards. -/
def lowerSigma (before after : List Char) : Char :=
  if casedAhead before && !casedAhead after then 'ς' else 'σ'

/-- The lower case of `cs` when the text `before` (read backwards) stands in front of it. -/
def lowerAfter : List Char → List Char → List Char
  | _, [] => []
  | before, c :: cs =>
    (if c = 'Σ' then [lowerSigma before cs] else lowerChar c) ++ lowerAfter (c :: before) cs

/-- The lower case of a text. -/
def lower (s : String) : String := String.ofList (lowerAfter [] s.toList)

end Transact.Text
