import Transact.Proofs.Json.Grammar

/-!
# Brackets of a JSON text

How many brackets are open at once in a text, counted from left to right, with the brackets inside
texts left out. Main statement:

* `Json.openPeak_visible`: outside of the values that nobody looks at, as many brackets are open at
  once in a text as its outline nests.
-/

set_option autoImplicit false

namespace Transact.Json

open Text Number
open Marked (shown hidden)

/-! ## Counting -/

/-- Where in a JSON text a character stands. -/
inductive Place where
  /-- between the quotation marks of a text -/
  | inText
  /-- right after a backslash in a text -/
  | escape
  /-- not in a text -/
  | outside
deriving DecidableEq

/-- The brackets open now, the most that were open so far, and the place of the next character. -/
structure Count where
  opened : Nat
  peak : Nat
  place : Place
deriving DecidableEq

/-- The count after one more character. -/
def Count.step (n : Count) (c : Char) : Count :=
  match n.place with
  | .escape => { n with place := .inText }
  | .inText =>
    if c = '"' then { n with place := .outside }
    else if c = '\\' then { n with place := .escape }
    else n
  | .outside =>
    if c = '"' then { n with place := .inText }
    else if c = '[' ∨ c = '\x7b' then
      { n with opened := n.opened + 1, peak := max n.peak (n.opened + 1) }
    else if c = ']' ∨ c = '\x7d' then { n with opened := n.opened - 1 }
    else n

/-- The count after more characters. -/
def Count.scan (n : Count) (cs : List Char) : Count := cs.foldl Count.step n

/-- The most brackets that are open at once in a JSON text. -/
def openPeak (text : String) : Nat := (Count.scan ⟨0, 0, .outside⟩ text.toList).peak

mutual

/-- How deep arrays and objects nest in a value. -/
def nesting : Json → Nat
  | .array items => nestingItems items + 1
  | .object fields => nestingFields fields + 1
  | _ => 0

/-- How deep the items nest. -/
def nestingItems : List Json → Nat
  | [] => 0
  | item :: items => max item.nesting (nestingItems items)

/-- How deep the values of the fields nest. -/
def nestingFields : List (String × Json) → Nat
  | [] => 0
  | (_, value) :: fields => max value.nesting (nestingFields fields)

end

theorem nestingFields_eq (fields : List (String × Json)) :
    nestingFields fields = nestingItems (fields.map Prod.snd) := by
  induction fields with
  | nil => rfl
  | cons field fields ih => simp [nestingFields, nestingItems, ih]

/-! ## The count of tokens -/

namespace Count

@[simp] theorem scan_nil (n : Count) : n.scan [] = n := rfl

@[simp] theorem scan_cons (n : Count) (c : Char) (cs : List Char) :
    n.scan (c :: cs) = (n.step c).scan cs := rfl

theorem scan_append (n : Count) (cs ds : List Char) : n.scan (cs ++ ds) = (n.scan cs).scan ds :=
  List.foldl_append

/-- A character that is neither a bracket nor a quotation mark. -/
def Plain (c : Char) : Prop := c ≠ '"' ∧ c ≠ '[' ∧ c ≠ ']' ∧ c ≠ '\x7b' ∧ c ≠ '\x7d'

instance (c : Char) : Decidable (Plain c) :=
  inferInstanceAs (Decidable (c ≠ '"' ∧ c ≠ '[' ∧ c ≠ ']' ∧ c ≠ '\x7b' ∧ c ≠ '\x7d'))

theorem scan_plain {o p : Nat} : ∀ {cs : List Char}, (∀ c ∈ cs, Plain c) →
    scan ⟨o, p, .outside⟩ cs = ⟨o, p, .outside⟩
  | [], _ => rfl
  | c :: cs, h => by
    obtain ⟨hquote, hopen, hclose, hopen', hclose'⟩ := h c List.mem_cons_self
    have hstep : step ⟨o, p, .outside⟩ c = ⟨o, p, .outside⟩ := by
      simp [step, hquote, hopen, hclose, hopen', hclose']
    rw [scan_cons, hstep]
    exact scan_plain fun d hd => h d (List.mem_cons_of_mem c hd)

theorem plain_of_isSpace {c : Char} (h : isSpace c = true) : Plain c := by
  have hplain : ∀ d ∈ [' ', '\t', '\n', '\r'], Plain d := by simp [Plain]
  exact hplain c (by simpa [isSpace, or_assoc] using h)

theorem scan_blank {o p : Nat} {b : List Char} (hb : Blank b) :
    scan ⟨o, p, .outside⟩ b = ⟨o, p, .outside⟩ :=
  scan_plain fun c hc => plain_of_isSpace (hb c hc)

/-- Blanks and a comma leave the count as it is. -/
theorem scan_blank_comma {o p : Nat} {b : List Char} (hb : Blank b) :
    scan ⟨o, p, .outside⟩ (b ++ [',']) = ⟨o, p, .outside⟩ := by
  rw [scan_append, scan_blank hb]
  rfl

/-- Blanks and a closing bracket close the bracket opened last. -/
theorem scan_blank_close {o p : Nat} {b : List Char} (hb : Blank b) {c : Char}
    (hc : c = ']' ∨ c = '\x7d') : scan ⟨o + 1, p, .outside⟩ (b ++ [c]) = ⟨o, p, .outside⟩ := by
  rw [scan_append, scan_blank hb]
  rcases hc with rfl | rfl <;> rfl

/-- The characters of a text leave the count inside it. -/
theorem scan_units {o p : Nat} {cs : List Char} {us : List Nat} (h : Units cs us) :
    scan ⟨o, p, .inText⟩ cs = ⟨o, p, .inText⟩ := by
  induction h with
  | nil => rfl
  | plain hquote hback _ _ ih => simpa [step, hquote, hback] using ih
  | simple _ _ ih => simpa [step] using ih
  | @numbered a b c d u cs us hu _ ih =>
    -- hexadecimal digits end no text
    have hdigit : ∀ e n, hexValue? e = some n → step ⟨o, p, .inText⟩ e = ⟨o, p, .inText⟩ := by
      intro e n he
      have hquote : e ≠ '"' := by
        rintro rfl
        cases he
      have hback : e ≠ '\\' := by
        rintro rfl
        cases he
      simp [step, hquote, hback]
    simp only [hexUnit?, Option.bind_eq_bind, Option.bind_eq_some_iff] at hu
    obtain ⟨_, ha, _, hb, _, hc, _, hd, -⟩ := hu
    simp only [scan_cons]
    rw [show step (step ⟨o, p, .inText⟩ '\\') 'u' = ⟨o, p, .inText⟩ from rfl, hdigit a _ ha,
      hdigit b _ hb, hdigit c _ hc, hdigit d _ hd, ih]

theorem scan_text {o p : Nat} {cs : List Char} {us : List Nat} (h : Units cs us) :
    scan ⟨o, p, .outside⟩ ('"' :: (cs ++ ['"'])) = ⟨o, p, .outside⟩ := by
  rw [scan_cons, scan_append, show step ⟨o, p, .outside⟩ '"' = ⟨o, p, .inText⟩ from rfl,
    scan_units h]
  rfl

theorem scan_label {o p : Nat} {name : Option String} {cs : List Char} (h : Label name cs) :
    scan ⟨o, p, .outside⟩ cs = ⟨o, p, .outside⟩ := by
  obtain ⟨hbefore, hafter, hunits⟩ := h
  rw [show ∀ a b c : List Char, a ++ '"' :: (b ++ '"' :: (c ++ [':'])) =
      a ++ ('"' :: (b ++ ['"']) ++ (c ++ [':'])) by simp, scan_append, scan_append,
    scan_blank hbefore, scan_text hunits, scan_append, scan_blank hafter]
  rfl

end Count

/-- A digit is neither a bracket nor a quotation mark. -/
theorem plain_of_isDigit {c : Char} (h : isDigit c = true) : Count.Plain c := by
  refine ⟨?_, ?_, ?_, ?_, ?_⟩ <;> rintro rfl <;> cases h

theorem ExponentText.plain {e : Option Int} {text : List Char} (h : ExponentText e text) :
    ∀ c ∈ text, Count.Plain c := by
  cases h with
  | absent => simp
  | @present letter negative mark ds hletter hmark hne hds =>
    intro c hc
    rcases List.mem_cons.1 hc with rfl | hc
    · rcases hletter with rfl | rfl <;> decide
    · rcases List.mem_append.1 hc with hc | hc
      · have hsign : mark ⊆ ['-', '+'] := by
          cases negative with
          | true => simp [show mark = ['-'] from hmark]
          | false => rcases hmark with rfl | rfl <;> simp
        have hall : ∀ d ∈ ['-', '+'], Count.Plain d := by simp [Count.Plain]
        exact hall c (hsign hc)
      · exact plain_of_isDigit (hds c hc)

theorem Denotes.nesting {text : List Char} {j : Json} (h : Denotes text j) : j.nesting = 0 := by
  obtain ⟨i, rfl⟩ | ⟨x, rfl⟩ | rfl := h.value <;> rfl

/-- The text of a number has no brackets. -/
theorem Denotes.plain {text : List Char} {j : Json} (h : Denotes text j) :
    ∀ c ∈ text, Count.Plain c := by
  obtain ⟨negative, ⟨whole, fraction, exponent⟩, _, ⟨hvalid, exponentText, hexponent, rfl⟩, rfl,
    -⟩ := h
  intro c hc
  simp only [List.mem_append] at hc
  rcases hc with hc | hc | hc | hc
  · cases negative with
    | true =>
      obtain rfl := List.mem_singleton.1 hc
      decide
    | false => cases hc
  · exact plain_of_isDigit (hvalid.whole_digits c hc)
  · cases fraction with
    | none => cases hc
    | some ds =>
      rcases List.mem_cons.1 hc with rfl | hc
      · decide
      · exact plain_of_isDigit ((hvalid.fraction_digits ds rfl).2 c hc)
  · exact hexponent.plain c hc

/-! ## The count of a text -/

/-- A text without brackets of its own leaves the count as it is. -/
theorem scan_leaf {j : Json} {text : List Char} {o p : Nat} (hj : j.nesting = 0) (h : o ≤ p)
    (hscan : Count.scan ⟨o, p, .outside⟩ text = ⟨o, p, .outside⟩) :
    Count.scan ⟨o, p, .outside⟩ text = ⟨o, max p (o + j.nesting), .outside⟩ := by
  rw [hscan, hj, Nat.add_zero, Nat.max_eq_left h]

theorem scan_brackets {o p n : Nat} {c : Char} {cs : List Char} (hc : c = '[' ∨ c = '\x7b')
    (h : Count.scan ⟨o + 1, max p (o + 1), .outside⟩ cs =
      ⟨o, max (max p (o + 1)) (o + 1 + n), .outside⟩) :
    Count.scan ⟨o, p, .outside⟩ (c :: cs) = ⟨o, max p (o + (n + 1)), .outside⟩ := by
  have hopen : Count.step ⟨o, p, .outside⟩ c = ⟨o + 1, max p (o + 1), .outside⟩ := by
    rcases hc with rfl | rfl <;> rfl
  rw [Count.scan_cons, hopen, h]
  exact congrArg (Count.mk o · .outside) (by omega)

mutual

/-- A text opens as many brackets as its outline nests, and closes them all. -/
theorem scan_spelled : ∀ {v : Json} {m : Marked}, Spelled v m → ∀ (o p : Nat), o ≤ p →
    Count.scan ⟨o, p, .outside⟩ m.visible = ⟨o, max p (o + v.nesting), .outside⟩
  | _, _, .blank hc h => by
    intro o p hop
    rw [Marked.visible_cons, ← List.singleton_append, Count.scan_append,
      Count.scan_blank (by simpa [Blank] using hc)]
    exact scan_spelled h _ _ hop
  | _, _, .word h => by
    intro o p hop
    simp only [List.mem_cons, Prod.mk.injEq, List.not_mem_nil, or_false] at h
    rcases h with ⟨rfl, rfl⟩ | ⟨rfl, rfl⟩ | ⟨rfl, rfl⟩ <;> exact scan_leaf rfl hop rfl
  | _, _, .number h => by
    intro o p hop
    rw [Marked.visible_shown]
    exact scan_leaf h.nesting hop (Count.scan_plain h.plain)
  | _, _, @Spelled.text _ us h => by
    intro o p hop
    rw [Marked.visible_shown]
    exact scan_leaf (by cases unitText? us <;> rfl) hop (Count.scan_text h)
  | _, _, .noItems hb => by
    intro o p hop
    rw [Marked.visible_shown]
    exact scan_brackets (.inl rfl) (by simp [Count.scan_blank_close hb (.inl rfl), nestingItems])
  | _, _, .array h => by
    intro o p hop
    exact scan_brackets (.inl rfl) (scan_spelledItems h _ _ (by omega))
  | _, _, .noFields hb => by
    intro o p hop
    rw [Marked.visible_shown]
    exact scan_brackets (.inr rfl) (by simp [Count.scan_blank_close hb (.inr rfl), nestingFields])
  | .object fs, _, .object h => by
    intro o p hop
    have hfields := scan_spelledFields h o (max p (o + 1)) (by omega)
    rw [List.map_map] at hfields
    rw [nesting, nestingFields_eq]
    exact scan_brackets (.inr rfl) hfields
  | _, _, .nameless _ _ => by
    intro o p hop
    rw [Marked.visible_hidden]
    exact scan_leaf rfl hop rfl
  | _, _, .ignored _ => by
    intro o p hop
    rw [Marked.visible_hidden]
    exact scan_leaf rfl hop rfl

theorem scan_spelledItems : ∀ {vs : List Json} {m : Marked}, SpelledItems vs m → ∀ (o p : Nat),
    o + 1 ≤ p → Count.scan ⟨o + 1, p, .outside⟩ m.visible =
      ⟨o, max p (o + 1 + nestingItems vs), .outside⟩
  | _, _, .last h hb => by
    intro o p hop
    rw [Marked.visible_append, Count.scan_append, scan_spelled h _ _ hop, Marked.visible_shown,
      Count.scan_blank_close hb (.inl rfl), nestingItems, nestingItems, Nat.max_zero]
  | _, _, .next h hb hmore => by
    intro o p hop
    rw [Marked.visible_append, Count.scan_append, scan_spelled h _ _ hop, Marked.visible_append,
      Count.scan_append, Marked.visible_shown, Count.scan_blank_comma hb,
      scan_spelledItems hmore _ _ (by omega), nestingItems]
    exact congrArg (Count.mk o · .outside) (by omega)

theorem scan_spelledFields : ∀ {fs : List (Option String × Json)} {m : Marked}, SpelledFields fs m →
    ∀ (o p : Nat), o + 1 ≤ p → Count.scan ⟨o + 1, p, .outside⟩ m.visible =
      ⟨o, max p (o + 1 + nestingItems (fs.map Prod.snd)), .outside⟩
  | _, _, .last hname h hb => by
    intro o p hop
    rw [Marked.visible_append, Count.scan_append, Marked.visible_shown, Count.scan_label hname,
      Marked.visible_append, Count.scan_append, scan_spelled h _ _ hop, Marked.visible_shown,
      Count.scan_blank_close hb (.inr rfl), List.map_cons, List.map_nil, nestingItems,
      nestingItems, Nat.max_zero]
  | _, _, .next hname h hb hmore => by
    intro o p hop
    rw [Marked.visible_append, Count.scan_append, Marked.visible_shown, Count.scan_label hname,
      Marked.visible_append, Count.scan_append, scan_spelled h _ _ hop, Marked.visible_append,
      Count.scan_append, Marked.visible_shown, Count.scan_blank_comma hb,
      scan_spelledFields hmore _ _ (by omega), List.map_cons, nestingItems]
    exact congrArg (Count.mk o · .outside) (by simp only; omega)

end

/-- Outside of the values that nobody looks at, as many brackets are open at once in a text as its
outline nests. -/
theorem openPeak_visible {v : Json} {m : Marked} {b : List Char} (h : Spelled v m) (hb : Blank b) :
    openPeak (String.ofList (m ++ shown b).visible) = v.nesting := by
  rw [openPeak, String.toList_ofList, Marked.visible_append, Count.scan_append,
    scan_spelled h 0 0 (Nat.le_refl 0), Marked.visible_shown, Count.scan_blank hb]
  simp

end Transact.Json
