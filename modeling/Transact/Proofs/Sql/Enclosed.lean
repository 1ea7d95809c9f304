import Transact.Text.Basic

/-!
# Enclosed contents

A name in brackets or in quotation marks and a text between apostrophes are read by one rule: inside
them the closing character stands for itself when it is written twice, and ends them when it is
written once.

* `scanEnclosed_eq_some_iff`: a content is read exactly where it stands with the closing character
  doubled in it, and where what follows does not begin with that character.
-/

set_option autoImplicit false

namespace Transact.Sql

open Text

/-- The content up to the character that closes it, and what follows that. -/
def scanEnclosed (close : Char) : List Char → Option (List Char × List Char)
  | [] => none
  | [c] => if c = close then some ([], []) else none
  | c :: d :: cs =>
    if c = close then
      if d = close then
        (scanEnclosed close cs).map fun (content, rest) => (close :: content, rest)
      else some ([], d :: cs)
    else (scanEnclosed close (d :: cs)).map fun (content, rest) => (c :: content, rest)

variable {close : Char}

/-! ## Doubling -/

theorem double_cons_self (close : Char) (cs : List Char) :
    double close (close :: cs) = close :: close :: double close cs := by
  simp [double]

theorem double_cons_of_ne {c : Char} (h : c ≠ close) (cs : List Char) :
    double close (c :: cs) = c :: double close cs := by
  simp [double, h]

theorem double_eq_self {cs : List Char} (h : close ∉ cs) : double close cs = cs := by
  induction cs with
  | nil => rfl
  | cons c cs ih =>
    obtain ⟨hc, hcs⟩ := List.ne_and_not_mem_of_not_mem_cons h
    rw [double_cons_of_ne (Ne.symm hc), ih hcs]

theorem mem_of_mem_double {c : Char} {cs : List Char} (h : c ∈ double close cs) : c ∈ cs := by
  obtain ⟨d, hd, hc⟩ := List.mem_flatMap.1 h
  split at hc <;> simp_all

/-! ## Reading -/

/-- What is doubled is read as what it stands for. -/
theorem scanEnclosed_double {rest : List Char} (hrest : rest.head? ≠ some close) :
    ∀ content : List Char,
      scanEnclosed close (double close content ++ close :: rest) = some (content, rest)
  | [] => by
    cases rest with
    | nil => simp [double, scanEnclosed]
    | cons d ds =>
      have hd : d ≠ close := fun h => hrest (by rw [h]; rfl)
      simp [double, scanEnclosed, hd]
  | c :: content => by
    have ih := scanEnclosed_double hrest content
    by_cases hc : c = close
    · rw [hc, double_cons_self, List.cons_append, List.cons_append, scanEnclosed, if_pos rfl,
        if_pos rfl, ih]
      rfl
    · rw [double_cons_of_ne hc, List.cons_append]
      cases htail : double close content ++ close :: rest with
      | nil => simp at htail
      | cons d ds =>
        rw [scanEnclosed, if_neg hc, ← htail, ih]
        rfl

/-- What is read stands there doubled, and what closes it is not written twice. -/
theorem eq_double_of_scanEnclosed {cs content rest : List Char}
    (h : scanEnclosed close cs = some (content, rest)) :
    cs = double close content ++ close :: rest ∧ rest.head? ≠ some close := by
  fun_induction scanEnclosed close cs generalizing content rest with
  | case1 => cases h
  | case2 =>
    cases h
    exact ⟨rfl, by simp⟩
  | case3 c hc => cases h
  | case4 cs ih =>
    obtain ⟨⟨content', rest'⟩, hscan, he⟩ := Option.map_eq_some_iff.1 h
    cases he
    obtain ⟨rfl, hrest⟩ := ih hscan
    exact ⟨by rw [double_cons_self]; rfl, hrest⟩
  | case5 d cs hd =>
    cases h
    exact ⟨rfl, fun he => hd (Option.some.inj he)⟩
  | case6 c d cs hc ih =>
    obtain ⟨⟨content', rest'⟩, hscan, he⟩ := Option.map_eq_some_iff.1 h
    cases he
    obtain ⟨htail, hrest⟩ := ih hscan
    exact ⟨by rw [htail, double_cons_of_ne hc]; rfl, hrest⟩

/-- **A content is read** exactly where it stands with the closing character doubled in it, up to
one that is not followed by another. -/
theorem scanEnclosed_eq_some_iff {cs content rest : List Char} :
    scanEnclosed close cs = some (content, rest) ↔
      cs = double close content ++ close :: rest ∧ rest.head? ≠ some close := by
  constructor
  · exact eq_double_of_scanEnclosed
  · rintro ⟨rfl, hrest⟩
    exact scanEnclosed_double hrest content

theorem length_lt_of_scanEnclosed {cs content rest : List Char}
    (h : scanEnclosed close cs = some (content, rest)) : rest.length < cs.length := by
  rw [(eq_double_of_scanEnclosed h).1, List.length_append, List.length_cons]
  omega

end Transact.Sql
