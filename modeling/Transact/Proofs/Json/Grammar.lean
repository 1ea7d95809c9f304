import Transact.Proofs.Json.Tokens

/-!
# JSON texts

The grammar of JSON texts, with blanks between the tokens and every way of writing texts and
numbers. A value that nobody looks at may be any value; in the outline of a text it is
`unreadable`, and its characters are marked as hidden.

* `Json.Spelled`: a marked text spells out an outline.
* `Json.Covers`: an outline is that of a value.
-/

set_option autoImplicit false

namespace Transact.Json

open Text Number

/-! ## Marked texts -/

/-- A text in which every character is marked: whether somebody looks at it. -/
abbrev Marked := List (Char × Bool)

namespace Marked

/-- All characters. -/
def text (m : Marked) : List Char := m.map Prod.fst

/-- The characters that somebody looks at. -/
def visible (m : Marked) : List Char := (m.filter Prod.snd).map Prod.fst

/-- A text that somebody looks at. -/
def shown (cs : List Char) : Marked := cs.map (·, true)

/-- A text that nobody looks at. -/
def hidden (cs : List Char) : Marked := cs.map (·, false)

@[simp] theorem text_nil : text [] = [] := rfl

@[simp] theorem text_cons (c : Char) (b : Bool) (m : Marked) : text ((c, b) :: m) = c :: m.text :=
  rfl

@[simp] theorem shown_nil : shown [] = [] := rfl

@[simp] theorem shown_append (cs ds : List Char) : shown (cs ++ ds) = shown cs ++ shown ds :=
  List.map_append

@[simp] theorem shown_cons (c : Char) (cs : List Char) : shown (c :: cs) = (c, true) :: shown cs :=
  rfl

@[simp] theorem text_append (m n : Marked) : text (m ++ n) = m.text ++ n.text := List.map_append

@[simp] theorem text_shown (cs : List Char) : (shown cs).text = cs := by
  simp [text, shown, Function.comp_def]

@[simp] theorem text_hidden (cs : List Char) : (hidden cs).text = cs := by
  simp [text, hidden, Function.comp_def]

@[simp] theorem visible_cons (c : Char) (m : Marked) :
    visible ((c, true) :: m) = c :: m.visible := rfl

@[simp] theorem visible_append (m n : Marked) : visible (m ++ n) = m.visible ++ n.visible := by
  simp [visible]

@[simp] theorem visible_shown (cs : List Char) : (shown cs).visible = cs := by
  simp [visible, shown, List.filter_map, Function.comp_def]

@[simp] theorem visible_hidden (cs : List Char) : (hidden cs).visible = [] := by
  simp [visible, hidden, List.filter_map, Function.comp_def]

@[simp] theorem length_text (m : Marked) : m.text.length = m.length := List.length_map _

@[simp] theorem length_shown (cs : List Char) : (shown cs).length = cs.length := List.length_map _

@[simp] theorem length_hidden (cs : List Char) : (hidden cs).length = cs.length := List.length_map _

end Marked

open Marked (shown hidden)

/-! ## The grammar -/

/-- Blanks between two tokens. -/
def Blank (cs : List Char) : Prop := ∀ c ∈ cs, isSpace c = true

theorem blank_nil : Blank [] := by simp [Blank]

/-- The name of a field, with the colon behind it. -/
inductive Label : Option String → List Char → Prop where
  | mk {before after cs : List Char} {us : List Nat} (hbefore : Blank before) (hafter : Blank after)
      (h : Units cs us) :
      Label (unitText? us) (before ++ '"' :: (cs ++ '"' :: (after ++ [':'])))

mutual

/-- The text spells out the outline of a value. -/
inductive Spelled : Json → Marked → Prop where
  | blank {c : Char} {v : Json} {m : Marked} (hc : isSpace c = true) (h : Spelled v m) :
      Spelled v ((c, true) :: m)
  | word {word : String} {v : Json}
      (h : (word, v) ∈ [("null", .null), ("true", .bool true), ("false", .bool false)]) :
      Spelled v (shown word.toList)
  | number {cs : List Char} {v : Json} (h : Denotes cs v) : Spelled v (shown cs)
  | text {cs : List Char} {us : List Nat} (h : Units cs us) :
      Spelled ((unitText? us).elim .unreadable .string) (shown ('"' :: (cs ++ ['"'])))
  | noItems {b : List Char} (hb : Blank b) : Spelled (.array []) (shown ('[' :: (b ++ [']'])))
  | array {vs : List Json} {m : Marked} (h : SpelledItems vs m) :
      Spelled (.array vs) (('[', true) :: m)
  | noFields {b : List Char} (hb : Blank b) :
      Spelled (.object []) (shown ('\x7b' :: (b ++ ['\x7d'])))
  | object {fs : List (String × Json)} {m : Marked}
      (h : SpelledFields (fs.map fun f => (some f.1, f.2)) m) :
      Spelled (.object fs) (('\x7b', true) :: m)
  /-- some name of a field cannot be read -/
  | nameless {fs : List (Option String × Json)} {m : Marked} (h : SpelledFields fs m)
      (hname : none ∈ fs.map Prod.fst) : Spelled .unreadable (hidden ('\x7b' :: m.text))
  /-- nobody looks at the value -/
  | ignored {v : Json} {m : Marked} (h : Spelled v m) : Spelled .unreadable (hidden m.text)

/-- The text spells out the items of an array up to its closing bracket. -/
inductive SpelledItems : List Json → Marked → Prop where
  | last {v : Json} {m : Marked} {b : List Char} (h : Spelled v m) (hb : Blank b) :
      SpelledItems [v] (m ++ shown (b ++ [']']))
  | next {v : Json} {vs : List Json} {m n : Marked} {b : List Char} (h : Spelled v m)
      (hb : Blank b) (hn : SpelledItems vs n) :
      SpelledItems (v :: vs) (m ++ (shown (b ++ [',']) ++ n))

/-- The text spells out the fields of an object up to its closing bracket. -/
inductive SpelledFields : List (Option String × Json) → Marked → Prop where
  | last {name : Option String} {v : Json} {cs b : List Char} {m : Marked} (hname : Label name cs)
      (h : Spelled v m) (hb : Blank b) :
      SpelledFields [(name, v)] (shown cs ++ (m ++ shown (b ++ ['\x7d'])))
  | next {name : Option String} {v : Json} {fs : List (Option String × Json)} {cs b : List Char}
      {m n : Marked} (hname : Label name cs) (h : Spelled v m) (hb : Blank b)
      (hn : SpelledFields fs n) :
      SpelledFields ((name, v) :: fs) (shown cs ++ (m ++ (shown (b ++ [',']) ++ n)))

end

mutual

/-- The first value is an outline of the second: some parts of it are left open. -/
def Covers : Json → Json → Prop
  | .null, j => j = .null
  | .bool b, j => j = .bool b
  | .integer i, j => j = .integer i
  | .float x, j => j = .float x
  | .unreadable, _ => True
  | .string s, j => j = .string s
  | .array vs, j => ∃ js, j = .array js ∧ CoversItems vs js
  | .object fs, j => ∃ gs, j = .object gs ∧ CoversFields fs gs

/-- The first values are outlines of the second ones. -/
def CoversItems : List Json → List Json → Prop
  | [], js => js = []
  | v :: vs, js => ∃ i is, js = i :: is ∧ v.Covers i ∧ CoversItems vs is

/-- The fields have the same names, and the first values are outlines of the second ones. -/
def CoversFields : List (String × Json) → List (String × Json) → Prop
  | [], gs => gs = []
  | (name, v) :: fs, gs => ∃ i is, gs = (name, i) :: is ∧ v.Covers i ∧ CoversFields fs is

end

/-! ## Outlines -/

theorem coversItems_iff {vs js : List Json} : CoversItems vs js ↔ List.Forall₂ Covers vs js := by
  induction vs generalizing js with
  | nil => simp [CoversItems]
  | cons v vs ih =>
    simp only [CoversItems, ih, List.forall₂_cons_left_iff]
    grind

theorem coversFields_iff {fs gs : List (String × Json)} :
    CoversFields fs gs ↔ List.Forall₂ (fun f g => f.1 = g.1 ∧ f.2.Covers g.2) fs gs := by
  induction fs generalizing gs with
  | nil => simp [CoversFields]
  | cons f fs ih =>
    obtain ⟨name, v⟩ := f
    simp only [CoversFields, ih, List.forall₂_cons_left_iff]
    grind

mutual

/-- A value is an outline of itself. -/
theorem covers_refl : ∀ j : Json, j.Covers j
  | .null | .bool _ | .integer _ | .float _ | .string _ => rfl
  | .unreadable => trivial
  | .array items => ⟨items, rfl, coversItems_refl items⟩
  | .object fields => ⟨fields, rfl, coversFields_refl fields⟩

theorem coversItems_refl : ∀ items : List Json, CoversItems items items
  | [] => rfl
  | item :: items => ⟨item, items, rfl, covers_refl item, coversItems_refl items⟩

theorem coversFields_refl : ∀ fields : List (String × Json), CoversFields fields fields
  | [] => rfl
  | (_, value) :: fields => ⟨value, fields, rfl, covers_refl value, coversFields_refl fields⟩

end

theorem covers_array {v : Json} {js : List Json} (h : v.Covers (.array js)) :
    v = .unreadable ∨ ∃ vs, v = .array vs ∧ CoversItems vs js := by
  cases v with
  | unreadable => exact .inl rfl
  | array vs =>
    obtain ⟨_, ⟨⟩, hvs⟩ := h
    exact .inr ⟨vs, rfl, hvs⟩
  | null | bool _ | integer _ | float _ | string _ | object _ => simp [Covers] at h

theorem covers_object {v : Json} {gs : List (String × Json)} (h : v.Covers (.object gs)) :
    v = .unreadable ∨ ∃ fs, v = .object fs ∧ CoversFields fs gs := by
  cases v with
  | unreadable => exact .inl rfl
  | object fs =>
    obtain ⟨_, ⟨⟩, hfs⟩ := h
    exact .inr ⟨fs, rfl, hfs⟩
  | null | bool _ | integer _ | float _ | string _ | array _ => simp [Covers] at h

/-- A value without parts has two outlines, itself and the empty one. -/
theorem covers_leaf {v j : Json} (h : v.Covers j) (hitems : ∀ js, j ≠ .array js)
    (hfields : ∀ gs, j ≠ .object gs) : v = .unreadable ∨ v = j := by
  cases v with
  | unreadable => exact .inl rfl
  | array vs =>
    obtain ⟨js, rfl, -⟩ := h
    exact absurd rfl (hitems js)
  | object fs =>
    obtain ⟨gs, rfl, -⟩ := h
    exact absurd rfl (hfields gs)
  | null | bool _ | integer _ | float _ | string _ => exact .inr h.symm

/-! ## Blanks -/

theorem skip_cons {c : Char} {cs : List Char} (h : isSpace c = false) :
    skip (c :: cs) = c :: cs := by
  simp [skip, h]

theorem skip_blank_cons {b : List Char} (hb : Blank b) {c : Char} (hc : isSpace c = false)
    (cs : List Char) : skip (b ++ c :: cs) = c :: cs := by
  rw [skip, List.dropWhile_append_of_pos hb, ← skip, skip_cons hc]

/-- What is skipped is blank. -/
theorem exists_blank {cs rest : List Char} (h : skip cs = rest) : ∃ b, Blank b ∧ cs = b ++ rest :=
  ⟨cs.takeWhile isSpace, fun _ h => List.mem_takeWhile_imp h,
    h ▸ List.takeWhile_append_dropWhile.symm⟩

theorem stops_nil : Stops [] := ⟨noDigit_nil, by simp, by simp, by simp⟩

theorem stops_cons {c : Char} {cs : List Char}
    (hc : c ∈ [' ', '\t', '\n', '\r', ',', ']', '\x7d']) : Stops (c :: cs) := by
  have hends : ∀ d ∈ [' ', '\t', '\n', '\r', ',', ']', '\x7d'], isDigit d = false ∧ d ≠ '.' ∧
      d ≠ 'e' ∧ d ≠ 'E' := by simp [isDigit]
  obtain ⟨hdigit, hpoint, he, hE⟩ := hends c hc
  exact ⟨noDigit_cons hdigit, by simpa using hpoint, by simpa using he, by simpa using hE⟩

/-- Blanks end a number. -/
theorem stops_append {b cs : List Char} (hb : Blank b) (hcs : Stops cs) : Stops (b ++ cs) := by
  cases b with
  | nil => exact hcs
  | cons c b =>
    have hc : c ∈ [' ', '\t', '\n', '\r'] := by
      simpa [isSpace, or_assoc] using hb c List.mem_cons_self
    exact stops_cons (List.mem_append_left [',', ']', '\x7d'] hc)

end Transact.Json
