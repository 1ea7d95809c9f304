import Transact.Plan.Fresh
import Transact.Proofs.Sql.Enclosed
import Transact.Proofs.Text.Cut
import Transact.Sql.Literal

/-!
# Pieces of SQL

How the server takes a text apart before it knows what the text is for: names with and without
delimiters, texts, numbers, comments and single characters. A delimiter stands for itself when it is
doubled, comments nest, and a name may follow a number without a blank. Which characters beyond
ASCII are letters is left open.

* `lexes_pieces`: the pieces make up the text, and each of them ends where it has to, given what
  follows it.
-/

set_option autoImplicit false

namespace Transact.Sql

open Text

/-! ## Pieces -/

/-- A piece of a text. -/
inductive Piece where
  /-- a name without delimiters -/
  | bare (name : List Char)
  /-- a name or a text up to the character that closes it, without the doubling -/
  | enclosed (close : Char) (content : List Char)
  | number (spelling : List Char)
  | comment (spelling : List Char)
  /-- a name, a text or a comment that does not end -/
  | unclosed (spelling : List Char)
  | other (c : Char)
deriving DecidableEq

namespace Piece

/-- The character that opens what `close` closes. -/
def opening (close : Char) : Char := if close = ']' then '[' else close

/-- The text of a piece. -/
def text : Piece → List Char
  | .bare name => name
  | .enclosed close content => opening close :: (double close content ++ [close])
  | .number spelling => spelling
  | .comment spelling => spelling
  | .unclosed spelling => spelling
  | .other c => [c]

/-- The name that a piece is. -/
def identifier? : Piece → Option String
  | .bare name => some (String.ofList name)
  | .enclosed close content => if close = apostrophe then none else some (String.ofList content)
  | _ => none

end Piece

/-! ## Taking a text apart -/

/-- The rest of a comment inside so many others, and what follows the outermost one. -/
def scanComment : Nat → List Char → Option (List Char × List Char)
  | _, [] => none
  | _, [_] => none
  | depth, c :: d :: cs =>
    if c = '*' ∧ d = '/' then
      match depth with
      | 0 => some ([c, d], cs)
      | depth + 1 => (scanComment depth cs).map fun (spelling, rest) => (c :: d :: spelling, rest)
    else if c = '/' ∧ d = '*' then
      (scanComment (depth + 1) cs).map fun (spelling, rest) => (c :: d :: spelling, rest)
    else (scanComment depth (d :: cs)).map fun (spelling, rest) => (c :: spelling, rest)

/-- How far a number has been read. -/
inductive NumberState where
  /-- a zero in front, after which an `x` may stand -/
  | zero
  | whole
  | decimals
  /-- the mark of an exponent, after which a sign may stand -/
  | mark
  | exponent
  | hexadecimal

/-- How far a number is read with this character, if it belongs to the number. -/
def NumberState.next? : NumberState → Char → Option NumberState
  | .zero, c =>
    if c = 'x' ∨ c = 'X' then some .hexadecimal else whole? c
  | .whole, c => whole? c
  | .decimals, c => if isDigit c then some .decimals else mark? c
  | .mark, c => if c = '+' ∨ c = '-' ∨ isDigit c then some .exponent else none
  | .exponent, c => if isDigit c then some .exponent else none
  | .hexadecimal, c => if (hexValue? c).isSome then some .hexadecimal else none
where
  whole? (c : Char) : Option NumberState :=
    if isDigit c then some .whole else if c = '.' then some .decimals else mark? c
  mark? (c : Char) : Option NumberState := if c = 'e' ∨ c = 'E' then some .mark else none

/-- The rest of a number, and what follows it. -/
def scanNumber : NumberState → List Char → List Char × List Char
  | _, [] => ([], [])
  | state, c :: cs =>
    match state.next? c with
    | some state => (c :: (scanNumber state cs).1, (scanNumber state cs).2)
    | none => ([], c :: cs)

/-- How far a number is read with its first character. -/
def NumberState.first (c : Char) : NumberState :=
  if c = '0' then .zero else if c = '.' then .decimals else .whole

section

variable (letter : Char → Bool)

/-- A character that a bare name may begin with. -/
def isBareStart (c : Char) : Bool :=
  isWordStart c || c == '@' || c == '#' || (128 ≤ c.toNat && letter c)

/-- A character that a bare name may have. -/
def isBareChar (c : Char) : Bool := isBareStart letter c || isDigit c || c == '$'

/-- The piece that is opened by `c`, and what follows it. -/
def nextEnclosed (close c : Char) (cs : List Char) : Piece × List Char :=
  match scanEnclosed close cs with
  | some (content, rest) => (.enclosed close content, rest)
  | none => (.unclosed (c :: cs), [])

/-- The comment that `/*` opens, and what follows it. -/
def nextComment (cs : List Char) : Piece × List Char :=
  match scanComment 0 cs with
  | some (spelling, rest) => (.comment ('/' :: '*' :: spelling), rest)
  | none => (.unclosed ('/' :: '*' :: cs), [])

/-- The first piece of a text, and what follows it. -/
def next (c : Char) (cs : List Char) : Piece × List Char :=
  if c = '[' then nextEnclosed ']' c cs
  else if c = '"' ∨ c = apostrophe then nextEnclosed c c cs
  else if c = '-' ∧ cs.head? = some '-' then
    (.comment (c :: cs.takeWhile (· != '\n')), cs.dropWhile (· != '\n'))
  else if c = '/' ∧ cs.head? = some '*' then nextComment cs.tail
  else if isDigit c ∨ c = '.' ∧ cs.head?.any isDigit then
    (.number (c :: (scanNumber (.first c) cs).1), (scanNumber (.first c) cs).2)
  else if isBareStart letter c then
    (.bare (c :: cs.takeWhile (isBareChar letter)), cs.dropWhile (isBareChar letter))
  else (.other c, cs)

/-- The pieces of a text. The first argument bounds their number; the length of the text is
enough. -/
def piecesWithin : Nat → List Char → List Piece
  | 0, _ => []
  | _, [] => []
  | n + 1, c :: cs => (next letter c cs).1 :: piecesWithin n (next letter c cs).2

/-- The pieces of a text. -/
def pieces (cs : List Char) : List Piece := piecesWithin letter cs.length cs

/-- The names in a text. -/
def identifiers (text : String) : List String :=
  (pieces letter text.toList).filterMap Piece.identifier?

end

/-! ## What a piece ends with -/

/-- A comment ends with a slash. -/
theorem eq_append_of_scanComment {depth : Nat} {cs spelling rest : List Char}
    (h : scanComment depth cs = some (spelling, rest)) :
    ∃ front, spelling = front ++ ['/'] ∧ cs = spelling ++ rest := by
  -- wherever the comment does not end, the rest of it is read on
  have hstep : ∀ {scanned : Option (List Char × List Char)} (taken : List Char) {cs : List Char},
      (∀ {spelling rest}, scanned = some (spelling, rest) →
        ∃ front, spelling = front ++ ['/'] ∧ cs = spelling ++ rest) →
      ∀ {spelling rest}, scanned.map (fun x => (taken ++ x.1, x.2)) = some (spelling, rest) →
        ∃ front, spelling = front ++ ['/'] ∧ taken ++ cs = spelling ++ rest := by
    intro scanned taken cs ih spelling rest h
    obtain ⟨⟨spelling', rest'⟩, hscan, heq⟩ := Option.map_eq_some_iff.1 h
    obtain ⟨rfl, rfl⟩ := Prod.mk.inj heq
    obtain ⟨front, rfl, rfl⟩ := ih hscan
    exact ⟨taken ++ front, by simp, by simp⟩
  fun_induction scanComment depth cs generalizing spelling rest with
  | case1 => cases h
  | case2 => cases h
  | case3 c d cs hend =>
    obtain ⟨rfl, rfl⟩ := Prod.mk.inj (Option.some.inj h)
    exact ⟨[c], by simp [hend.2], rfl⟩
  | case4 c d cs hend depth ih => exact hstep [c, d] ih h
  | case5 depth c d cs hend hopen ih => exact hstep [c, d] ih h
  | case6 depth c d cs hend hopen ih => exact hstep [c] ih h

theorem append_scanNumber : ∀ (state : NumberState) (cs : List Char),
    (scanNumber state cs).1 ++ (scanNumber state cs).2 = cs
  | _, [] => rfl
  | state, c :: cs => by
    rw [scanNumber]
    split
    · exact congrArg (c :: ·) (append_scanNumber _ cs)
    · rfl

/-- No bracket belongs to a number. -/
theorem open_notMem_scanNumber : ∀ (state : NumberState) (cs : List Char),
    '[' ∉ (scanNumber state cs).1
  | _, [] => by simp [scanNumber]
  | state, c :: cs => by
    have hnone : state.next? '[' = none := by cases state <;> rfl
    rw [scanNumber]
    split
    case h_1 state' hnext =>
      rintro (_ | ⟨_, hmem⟩)
      · rw [hnone] at hnext
        cases hnext
      · exact open_notMem_scanNumber state' cs hmem
    case h_2 => simp

section

variable {letter : Char → Bool}

/-- A piece in front of a text that may follow it. -/
inductive Fits (letter : Char → Bool) : Piece → List Char → Prop
  | bare {c : Char} {name rest : List Char} (hc : isBareStart letter c = true)
      (hname : ∀ d ∈ name, isBareChar letter d = true)
      (hrest : ∀ d ∈ rest.head?, isBareChar letter d = false) : Fits letter (.bare (c :: name)) rest
  | enclosed {close : Char} {content rest : List Char}
      (hclose : close = ']' ∨ close = '"' ∨ close = apostrophe)
      (hrest : rest.head? ≠ some close) : Fits letter (.enclosed close content) rest
  | number {spelling rest : List Char} (hne : spelling ≠ []) (hopen : '[' ∉ spelling) :
      Fits letter (.number spelling) rest
  | line {spelling rest : List Char} (hrest : ∀ d ∈ rest.head?, d = '\n') :
      Fits letter (.comment ('-' :: spelling)) rest
  | block {spelling rest : List Char} : Fits letter (.comment ('/' :: (spelling ++ ['/']))) rest
  | unclosed {c : Char} {spelling : List Char} : Fits letter (.unclosed (c :: spelling)) []
  | other {c : Char} {rest : List Char} (hopen : c ≠ '[') (hc : isBareStart letter c = false) :
      Fits letter (.other c) rest

/-- The pieces of a text, each in front of those after it. -/
inductive Lexes (letter : Char → Bool) : List Char → List Piece → Prop
  | nil : Lexes letter [] []
  | cons {p : Piece} {rest : List Char} {ps : List Piece} (hp : Fits letter p rest)
      (hrest : Lexes letter rest ps) : Lexes letter (p.text ++ rest) (p :: ps)

theorem fits_nextEnclosed {close c : Char} (hc : c = Piece.opening close)
    (hclose : close = ']' ∨ close = '"' ∨ close = apostrophe) (cs : List Char) :
    Fits letter (nextEnclosed close c cs).1 (nextEnclosed close c cs).2 ∧
      c :: cs = (nextEnclosed close c cs).1.text ++ (nextEnclosed close c cs).2 := by
  unfold nextEnclosed
  split
  case h_1 content rest hscan =>
    obtain ⟨rfl, hrest⟩ := eq_double_of_scanEnclosed hscan
    exact ⟨.enclosed hclose hrest, by simp [Piece.text, hc]⟩
  case h_2 => exact ⟨.unclosed, by simp [Piece.text]⟩

theorem fits_nextComment (cs : List Char) :
    Fits letter (nextComment cs).1 (nextComment cs).2 ∧
      '/' :: '*' :: cs = (nextComment cs).1.text ++ (nextComment cs).2 := by
  unfold nextComment
  split
  case h_1 spelling rest hscan =>
    obtain ⟨front, rfl, rfl⟩ := eq_append_of_scanComment hscan
    refine ⟨?_, by simp [Piece.text]⟩
    exact @Fits.block letter ('*' :: front) rest
  case h_2 => exact ⟨.unclosed, by simp [Piece.text]⟩

/-- **The first piece** ends where it has to. -/
theorem fits_next (letter : Char → Bool) (c : Char) (cs : List Char) :
    Fits letter (next letter c cs).1 (next letter c cs).2 ∧
      c :: cs = (next letter c cs).1.text ++ (next letter c cs).2 := by
  unfold next
  split
  case isTrue hopen => exact fits_nextEnclosed hopen (.inl rfl) cs
  case isFalse hopen =>
  split
  case isTrue hquote =>
    refine fits_nextEnclosed ?_ (.inr hquote) cs
    rcases hquote with rfl | rfl <;> rfl
  case isFalse hquote =>
  split
  case isTrue hline =>
    obtain ⟨rfl, -⟩ := hline
    refine ⟨.line fun d hd => ?_, by simp [Piece.text, List.takeWhile_append_dropWhile]⟩
    simpa using head?_dropWhile_eq_false cs d hd
  case isFalse hline =>
  split
  case isTrue hblock =>
    obtain ⟨rfl, hhead⟩ := hblock
    obtain ⟨rest, rfl⟩ : ∃ rest, cs = '*' :: rest := by
      cases cs with
      | nil => cases hhead
      | cons d ds => exact ⟨ds, by rw [Option.some.inj hhead]⟩
    exact fits_nextComment rest
  case isFalse hblock =>
  split
  case isTrue hnumber =>
    refine ⟨.number (by simp) ?_, congrArg (c :: ·) (append_scanNumber _ cs).symm⟩
    rintro (_ | ⟨_, hmem⟩)
    · exact hopen rfl
    · exact open_notMem_scanNumber _ cs hmem
  case isFalse hnumber =>
  split
  case isTrue hbare =>
    refine ⟨.bare hbare (fun d hd => List.mem_takeWhile_imp hd) ?_, ?_⟩
    · exact head?_dropWhile_eq_false cs
    · simp [Piece.text, List.takeWhile_append_dropWhile]
  case isFalse hbare =>
    exact ⟨.other hopen (by simpa using hbare), rfl⟩

theorem Fits.text_ne_nil {p : Piece} {rest : List Char} (h : Fits letter p rest) :
    p.text ≠ [] := by
  cases h <;> simp_all [Piece.text]

theorem lexes_piecesWithin (letter : Char → Bool) :
    ∀ {n : Nat} {cs : List Char}, cs.length ≤ n → Lexes letter cs (piecesWithin letter n cs)
  | 0, cs, h => by
    obtain rfl := List.length_eq_zero_iff.1 (Nat.le_zero.1 h)
    exact .nil
  | n + 1, [], _ => .nil
  | n + 1, c :: cs, h => by
    obtain ⟨hfits, htext⟩ := fits_next letter c cs
    have hlength := congrArg List.length htext
    have hpos := List.length_pos_iff.2 hfits.text_ne_nil
    rw [List.length_append, List.length_cons] at hlength
    rw [List.length_cons] at h
    rw [piecesWithin]
    nth_rewrite 1 [htext]
    exact .cons hfits (lexes_piecesWithin letter (by omega))

/-- **The pieces** of a text each end where they have to. -/
theorem lexes_pieces (letter : Char → Bool) (cs : List Char) :
    Lexes letter cs (pieces letter cs) := lexes_piecesWithin letter (Nat.le_refl _)

end

end Transact.Sql
