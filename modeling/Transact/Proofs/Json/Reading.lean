import Transact.Proofs.Json.Grammar

/-!
# Reading JSON texts

The reader takes exactly the texts of the grammar. Main statements:

* `Json.read?_of_spelled`: every text of the grammar is read, as a value that its outline covers.
* `Json.spelled_of_read?`: every text that is read spells out each outline of its value.
-/

set_option autoImplicit false

namespace Transact.Json

open Text Number
open Marked (shown hidden)

/-! ## Every text of the grammar is read -/

theorem value?_blank {c : Char} (hc : isSpace c = true) (n : Nat) (cs : List Char) :
    value? n (c :: cs) = value? n cs := by
  cases n with
  | zero => rfl
  | succ n =>
    have hskip : skip (c :: cs) = skip cs := List.dropWhile_cons_of_pos hc
    rw [value?, value?, hskip]

/-- A number is recognised by its first character. -/
theorem value?_number {text rest : List Char} {j : Json} {n : Nat} (hn : 0 < n)
    (h : Denotes text j) (hrest : Stops rest) : value? n (text ++ rest) = some (j, rest) := by
  obtain ⟨n, rfl⟩ := Nat.exists_eq_add_one.2 hn
  have hnumber := h.number? hrest
  obtain ⟨c, cs, rfl, hc⟩ := h.head
  have hne : ∀ d : Char, d ≠ '-' → isDigit d = false → c ≠ d := by
    rintro d hd hdigit rfl
    rcases hc with hc | hc
    · exact hd hc
    · rw [hdigit] at hc
      cases hc
  have hspace : isSpace c = false := by
    simp [isSpace, hne ' ' (by decide) rfl, hne '\t' (by decide) rfl, hne '\n' (by decide) rfl,
      hne '\r' (by decide) rfl]
  rw [List.cons_append, value?, skip_cons hspace]
  simp only
  rw [if_neg (hne '"' (by decide) rfl), if_neg (hne '[' (by decide) rfl),
    if_neg (hne '\x7b' (by decide) rfl), if_neg (hne 'n' (by decide) rfl),
    if_neg (hne 't' (by decide) rfl), if_neg (hne 'f' (by decide) rfl)]
  exact hnumber

theorem word?_append (word : String) (rest : List Char) :
    word? word (word.toList ++ rest) = some rest := by
  have hpre : word.toList.isPrefixOf (word.toList ++ rest) = true :=
    List.isPrefixOf_iff_prefix.2 (List.prefix_append _ _)
  rw [word?, if_pos hpre, ← String.length_toList, List.drop_left]

theorem value?_word {word : String} {j : Json} {n : Nat} (hn : 0 < n) (rest : List Char)
    (h : (word, j) ∈ [("null", .null), ("true", .bool true), ("false", .bool false)]) :
    value? n (word.toList ++ rest) = some (j, rest) := by
  obtain ⟨n, rfl⟩ := Nat.exists_eq_add_one.2 hn
  have hword := word?_append word rest
  simp only [List.mem_cons, Prod.mk.injEq, List.not_mem_nil, or_false] at h
  rcases h with ⟨rfl, rfl⟩ | ⟨rfl, rfl⟩ | ⟨rfl, rfl⟩ <;>
  · simp only [String.reduceToList, List.cons_append, List.nil_append] at hword ⊢
    rw [value?, skip_cons rfl]
    simp [hword]

theorem text?_units {cs : List Char} {us : List Nat} (h : Units cs us) (rest : List Char) :
    text? (cs ++ '"' :: rest) = some (unitText? us, rest) := by
  rw [text?, h.units? rest]
  rfl

theorem value?_text {cs : List Char} {us : List Nat} {n : Nat} (hn : 0 < n) (h : Units cs us)
    (rest : List Char) : value? n ('"' :: (cs ++ '"' :: rest)) =
      some ((unitText? us).elim .unreadable .string, rest) := by
  obtain ⟨n, rfl⟩ := Nat.exists_eq_add_one.2 hn
  rw [value?, skip_cons rfl]
  simp [text?_units h]

/-- No value starts with the bracket that closes an array. -/
theorem skip_ne_of_value? {n : Nat} {cs rest : List Char} {j : Json}
    (h : value? n cs = some (j, rest)) (after : List Char) : skip cs ≠ ']' :: after := by
  intro hskip
  cases n with
  | zero => simp [value?] at h
  | succ n =>
    rw [value?, hskip] at h
    simp [number?, isDigit] at h

theorem skip_ne_of_items? {n : Nat} {cs rest : List Char} {items : List Json}
    (h : items? n cs = some (items, rest)) (after : List Char) : skip cs ≠ ']' :: after := by
  cases n with
  | zero => simp [items?] at h
  | succ n =>
    rw [items?] at h
    cases hv : value? n cs with
    | none => simp [hv] at h
    | some p => exact skip_ne_of_value? hv after

theorem skip_ne_of_fields? {n : Nat} {cs rest : List Char} {fields : List (Option String × Json)}
    (h : fields? n cs = some (fields, rest)) (after : List Char) : skip cs ≠ '\x7d' :: after := by
  intro hskip
  cases n with
  | zero => simp [fields?] at h
  | succ n => simp [fields?, hskip] at h

theorem value?_array {n : Nat} {cs rest : List Char} {items : List Json}
    (h : items? n cs = some (items, rest)) :
    value? (n + 1) ('[' :: cs) = some (.array items, rest) := by
  have hne := skip_ne_of_items? h
  rw [value?, skip_cons rfl]
  simp only [Char.reduceEq, if_false, if_true, h]
  rfl

theorem value?_object {n : Nat} {cs rest : List Char} {fields : List (Option String × Json)}
    (h : fields? n cs = some (fields, rest)) :
    value? (n + 1) ('\x7b' :: cs) = some (objectOf fields, rest) := by
  have hne := skip_ne_of_fields? h
  rw [value?, skip_cons rfl]
  simp only [Char.reduceEq, if_false, if_true, h]
  rfl

theorem items?_last {n : Nat} {cs b rest : List Char} {item : Json} (hb : Blank b)
    (h : value? n cs = some (item, b ++ ']' :: rest)) :
    items? (n + 1) cs = some ([item], rest) := by
  rw [items?, h]
  simp [skip_blank_cons hb (show isSpace ']' = false from rfl)]

theorem items?_next {n : Nat} {cs b more rest : List Char} {item : Json} {items : List Json}
    (hb : Blank b) (h : value? n cs = some (item, b ++ ',' :: more))
    (hmore : items? n more = some (items, rest)) :
    items? (n + 1) cs = some (item :: items, rest) := by
  rw [items?, h]
  simp [skip_blank_cons hb (show isSpace ',' = false from rfl), hmore]

theorem fields?_last {n : Nat} {label cs b rest : List Char} {name : Option String} {value : Json}
    (hname : Label name label) (hb : Blank b)
    (h : value? n cs = some (value, b ++ '\x7d' :: rest)) :
    fields? (n + 1) (label ++ cs) = some ([(name, value)], rest) := by
  obtain ⟨hbefore, hafter, hunits⟩ := hname
  rw [fields?, List.append_assoc, List.cons_append, skip_blank_cons hbefore rfl]
  simp only [List.append_assoc, List.cons_append, List.nil_append, text?_units hunits,
    Option.bind_eq_bind, Option.bind_some,
    skip_blank_cons hafter (show isSpace ':' = false from rfl), h,
    skip_blank_cons hb (show isSpace '\x7d' = false from rfl)]
  rfl

theorem fields?_next {n : Nat} {label cs b more rest : List Char} {name : Option String}
    {value : Json} {fields : List (Option String × Json)} (hname : Label name label) (hb : Blank b)
    (h : value? n cs = some (value, b ++ ',' :: more))
    (hmore : fields? n more = some (fields, rest)) :
    fields? (n + 1) (label ++ cs) = some ((name, value) :: fields, rest) := by
  obtain ⟨hbefore, hafter, hunits⟩ := hname
  rw [fields?, List.append_assoc, List.cons_append, skip_blank_cons hbefore rfl]
  simp only [List.append_assoc, List.cons_append, List.nil_append, text?_units hunits,
    Option.bind_eq_bind, Option.bind_some,
    skip_blank_cons hafter (show isSpace ':' = false from rfl), h,
    skip_blank_cons hb (show isSpace ',' = false from rfl), hmore]
  rfl

/-- The fields of a text and those of its outline. -/
def CoversLabelled : List (Option String × Json) → List (Option String × Json) → Prop :=
  List.Forall₂ fun f g => f.1 = g.1 ∧ f.2.Covers g.2

/-- Fields with readable names make an object. -/
theorem objectOf_of_some {gs : List (Option String × Json)} {fs : List (String × Json)}
    (h : (gs.mapM fun g => g.1.map (·, g.2)) = some fs) : objectOf gs = .object fs := by
  unfold objectOf
  split
  · rename_i fields heq
    rw [Option.some.inj (heq.symm.trans h)]
  · rename_i heq
    cases heq.symm.trans h

theorem objectOf_of_none {gs : List (Option String × Json)}
    (h : (gs.mapM fun g => g.1.map (·, g.2)) = none) : objectOf gs = .unreadable := by
  unfold objectOf
  split
  · rename_i fields heq
    cases heq.symm.trans h
  · rfl

theorem covers_objectOf {fs : List (String × Json)} {gs : List (Option String × Json)}
    (h : CoversLabelled (fs.map fun f => (some f.1, f.2)) gs) :
    (Json.object fs).Covers (objectOf gs) := by
  suffices hgs : ∃ hs, (gs.mapM fun g => g.1.map (·, g.2)) = some hs ∧ CoversFields fs hs by
    obtain ⟨hs, heq, hcovers⟩ := hgs
    rw [objectOf_of_some heq]
    exact ⟨hs, rfl, hcovers⟩
  induction fs generalizing gs with
  | nil =>
    cases h
    exact ⟨[], rfl, rfl⟩
  | cons f fs ih =>
    cases h with
    | @cons _ g _ gs hg hrest =>
      obtain ⟨_, value⟩ := g
      obtain ⟨rfl, hvalue⟩ := hg
      obtain ⟨hs, heq, hcovers⟩ := ih hrest
      exact ⟨(f.1, value) :: hs, by simp [List.mapM_cons, heq], value, hs, rfl, hvalue, hcovers⟩

mutual

/-- A text of the grammar is read as a value that its outline covers. Two steps for every character
are more than the reader takes. -/
theorem value?_of_spelled : ∀ {v : Json} {m : Marked}, Spelled v m → ∀ (n : Nat) (rest : List Char),
    Stops rest → 2 * m.length + 1 ≤ n → ∃ j, v.Covers j ∧ value? n (m.text ++ rest) = some (j, rest)
  | _, _, .blank hc h => by
    intro n rest hrest hn
    rw [List.length_cons] at hn
    obtain ⟨j, hj, hread⟩ := value?_of_spelled h n rest hrest (by omega)
    exact ⟨j, hj, (value?_blank hc n _).trans hread⟩
  | v, _, .word h => by
    intro n rest _ hn
    exact ⟨v, covers_refl v, by rw [Marked.text_shown]; exact value?_word (by omega) rest h⟩
  | v, _, .number h => by
    intro n rest hrest hn
    exact ⟨v, covers_refl v, by rw [Marked.text_shown]; exact value?_number (by omega) h hrest⟩
  | _, _, .text h => by
    intro n rest _ hn
    refine ⟨_, covers_refl _, ?_⟩
    rw [Marked.text_shown, List.cons_append, List.append_assoc]
    exact value?_text (by omega) h rest
  | _, _, .noItems hb => by
    intro n rest _ hn
    obtain ⟨n, rfl⟩ : ∃ k, n = k + 1 := ⟨n - 1, by omega⟩
    refine ⟨_, covers_refl _, ?_⟩
    rw [Marked.text_shown, List.cons_append, List.append_assoc, value?, skip_cons rfl]
    simp [skip_blank_cons hb (show isSpace ']' = false from rfl)]
  | _, _, .array h => by
    intro n rest _ hn
    obtain ⟨n, rfl⟩ : ∃ k, n = k + 1 := ⟨n - 1, by omega⟩
    rw [List.length_cons] at hn
    obtain ⟨js, hjs, hread⟩ := items?_of_spelled h n rest (by omega)
    exact ⟨.array js, ⟨js, rfl, hjs⟩, value?_array hread⟩
  | _, _, .noFields hb => by
    intro n rest _ hn
    obtain ⟨n, rfl⟩ : ∃ k, n = k + 1 := ⟨n - 1, by omega⟩
    refine ⟨_, covers_refl _, ?_⟩
    rw [Marked.text_shown, List.cons_append, List.append_assoc, value?, skip_cons rfl]
    simp [skip_blank_cons hb (show isSpace '\x7d' = false from rfl)]
  | _, _, .object h => by
    intro n rest _ hn
    obtain ⟨n, rfl⟩ : ∃ k, n = k + 1 := ⟨n - 1, by omega⟩
    rw [List.length_cons] at hn
    obtain ⟨gs, hgs, hread⟩ := fields?_of_spelled h n rest (by omega)
    exact ⟨objectOf gs, covers_objectOf hgs, value?_object hread⟩
  | _, _, .nameless h _ => by
    intro n rest _ hn
    obtain ⟨n, rfl⟩ : ∃ k, n = k + 1 := ⟨n - 1, by omega⟩
    simp only [Marked.length_hidden, List.length_cons, Marked.length_text] at hn
    obtain ⟨gs, -, hread⟩ := fields?_of_spelled h n rest (by omega)
    rw [Marked.text_hidden]
    exact ⟨objectOf gs, trivial, value?_object hread⟩
  | _, _, .ignored h => by
    intro n rest hrest hn
    simp only [Marked.length_hidden, Marked.length_text] at hn
    obtain ⟨j, -, hread⟩ := value?_of_spelled h n rest hrest hn
    rw [Marked.text_hidden]
    exact ⟨j, trivial, hread⟩

theorem items?_of_spelled : ∀ {vs : List Json} {m : Marked}, SpelledItems vs m →
    ∀ (n : Nat) (rest : List Char), 2 * m.length ≤ n →
      ∃ js, CoversItems vs js ∧ items? n (m.text ++ rest) = some (js, rest)
  | _, _, .last h hb => by
    intro n rest hn
    simp only [List.length_append, Marked.length_shown, List.length_cons] at hn
    obtain ⟨n, rfl⟩ : ∃ k, n = k + 1 := ⟨n - 1, by omega⟩
    obtain ⟨j, hj, hread⟩ := value?_of_spelled h n (_ ++ ']' :: rest)
      (stops_append hb (stops_cons (by simp))) (by omega)
    refine ⟨[j], ⟨j, [], rfl, hj, rfl⟩, ?_⟩
    simp only [Marked.text_append, Marked.text_shown, List.append_assoc, List.cons_append,
      List.nil_append]
    exact items?_last hb hread
  | _, _, @SpelledItems.next _ _ _ more _ h hb hmore => by
    intro n rest hn
    simp only [List.length_append, Marked.length_shown, List.length_cons] at hn
    obtain ⟨n, rfl⟩ : ∃ k, n = k + 1 := ⟨n - 1, by omega⟩
    obtain ⟨j, hj, hread⟩ := value?_of_spelled h n (_ ++ ',' :: (more.text ++ rest))
      (stops_append hb (stops_cons (by simp))) (by omega)
    obtain ⟨js, hjs, hreads⟩ := items?_of_spelled hmore n rest (by omega)
    refine ⟨j :: js, ⟨j, js, rfl, hj, hjs⟩, ?_⟩
    simp only [Marked.text_append, Marked.text_shown, List.append_assoc, List.cons_append,
      List.nil_append]
    exact items?_next hb hread hreads

theorem fields?_of_spelled : ∀ {fs : List (Option String × Json)} {m : Marked}, SpelledFields fs m →
    ∀ (n : Nat) (rest : List Char), 2 * m.length ≤ n →
      ∃ gs, CoversLabelled fs gs ∧ fields? n (m.text ++ rest) = some (gs, rest)
  | _, _, @SpelledFields.last name _ _ _ _ hname h hb => by
    intro n rest hn
    simp only [List.length_append, Marked.length_shown, List.length_cons] at hn
    obtain ⟨n, rfl⟩ : ∃ k, n = k + 1 := ⟨n - 1, by omega⟩
    obtain ⟨j, hj, hread⟩ := value?_of_spelled h n (_ ++ '\x7d' :: rest)
      (stops_append hb (stops_cons (by simp))) (by omega)
    refine ⟨[(name, j)], .cons ⟨rfl, hj⟩ .nil, ?_⟩
    simp only [Marked.text_append, Marked.text_shown, List.append_assoc, List.cons_append,
      List.nil_append]
    exact fields?_last hname hb hread
  | _, _, @SpelledFields.next name _ _ _ _ _ more hname h hb hmore => by
    intro n rest hn
    simp only [List.length_append, Marked.length_shown, List.length_cons] at hn
    obtain ⟨n, rfl⟩ : ∃ k, n = k + 1 := ⟨n - 1, by omega⟩
    obtain ⟨j, hj, hread⟩ := value?_of_spelled h n (_ ++ ',' :: (more.text ++ rest))
      (stops_append hb (stops_cons (by simp))) (by omega)
    obtain ⟨gs, hgs, hreads⟩ := fields?_of_spelled hmore n rest (by omega)
    refine ⟨(name, j) :: gs, .cons ⟨rfl, hj⟩ hgs, ?_⟩
    simp only [Marked.text_append, Marked.text_shown, List.append_assoc, List.cons_append,
      List.nil_append]
    exact fields?_next hname hb hread hreads

end

/-! ## Every text that is read is one of the grammar -/

theorem Spelled.blanks {v : Json} {m : Marked} (h : Spelled v m) : ∀ {b : List Char}, Blank b →
    Spelled v (shown b ++ m)
  | [], _ => h
  | c :: _, hb => .blank (hb c List.mem_cons_self) (h.blanks fun d hd => hb d (.tail c hd))

/-- The text spells out every outline of the value. -/
def Spells (cs : List Char) (j : Json) : Prop :=
  ∀ v : Json, v.Covers j → ∃ m : Marked, m.text = cs ∧ Spelled v m

/-- The text spells out all outlines of the items. -/
def SpellsItems (cs : List Char) (js : List Json) : Prop :=
  ∀ vs, CoversItems vs js → ∃ m : Marked, m.text = cs ∧ SpelledItems vs m

/-- The text spells out all outlines of the fields. -/
def SpellsFields (cs : List Char) (gs : List (Option String × Json)) : Prop :=
  ∀ fs, CoversLabelled fs gs → ∃ m : Marked, m.text = cs ∧ SpelledFields fs m

theorem Spells.blanks {cs b : List Char} {j : Json} (h : Spells cs j) (hb : Blank b) :
    Spells (b ++ cs) j := by
  intro v hv
  obtain ⟨m, rfl, hm⟩ := h v hv
  exact ⟨shown b ++ m, by simp, hm.blanks hb⟩

theorem spells_leaf {cs : List Char} {j : Json} (h : Spelled j (shown cs))
    (hitems : ∀ js, j ≠ .array js) (hfields : ∀ gs, j ≠ .object gs) : Spells cs j := by
  intro v hv
  rcases covers_leaf hv hitems hfields with rfl | rfl
  · exact ⟨hidden (shown cs).text, by simp, .ignored h⟩
  · exact ⟨shown cs, by simp, h⟩

theorem Denotes.spells {cs : List Char} {j : Json} (h : Denotes cs j) : Spells cs j := by
  refine spells_leaf (.number h) ?_ ?_ <;>
    obtain ⟨i, rfl⟩ | ⟨x, rfl⟩ | rfl := h.value <;> simp

theorem Units.spells {cs : List Char} {us : List Nat} (h : Units cs us) :
    Spells ('"' :: (cs ++ ['"'])) ((unitText? us).elim .unreadable .string) := by
  refine spells_leaf (.text h) ?_ ?_ <;> cases unitText? us <;> intro _ hne <;> cases hne

theorem spells_word {word : String} {j : Json}
    (h : (word, j) ∈ [("null", .null), ("true", .bool true), ("false", .bool false)]) :
    Spells word.toList j := by
  refine spells_leaf (.word h) ?_ ?_ <;> rintro _ rfl <;> simp at h

theorem spells_noItems {b : List Char} (hb : Blank b) :
    Spells ('[' :: (b ++ [']'])) (.array []) := by
  intro v hv
  obtain rfl | ⟨vs, rfl, hvs⟩ := covers_array hv
  · exact ⟨_, by simp, .ignored (.noItems hb)⟩
  · obtain rfl : vs = [] := by simpa [coversItems_iff] using hvs
    exact ⟨_, by simp, .noItems hb⟩

theorem SpellsItems.spells {cs : List Char} {js : List Json} (h : SpellsItems cs js) :
    Spells ('[' :: cs) (.array js) := by
  intro v hv
  obtain rfl | ⟨vs, rfl, hvs⟩ := covers_array hv
  · obtain ⟨m, rfl, hm⟩ := h js (coversItems_refl js)
    exact ⟨_, by simp, .ignored (.array hm)⟩
  · obtain ⟨m, rfl, hm⟩ := h vs hvs
    exact ⟨_, rfl, .array hm⟩

theorem Spells.lastItem {cs b : List Char} {j : Json} (h : Spells cs j) (hb : Blank b) :
    SpellsItems (cs ++ (b ++ [']'])) [j] := by
  rintro _ hvs
  rw [coversItems_iff, List.forall₂_cons_right_iff] at hvs
  obtain ⟨v, _, hv, ⟨⟩, rfl⟩ := hvs
  obtain ⟨m, rfl, hm⟩ := h v hv
  exact ⟨_, by simp, .last hm hb⟩

theorem Spells.nextItem {cs b ds : List Char} {j : Json} {js : List Json} (h : Spells cs j)
    (hb : Blank b) (hmore : SpellsItems ds js) :
    SpellsItems (cs ++ (b ++ ',' :: ds)) (j :: js) := by
  rintro _ hvs
  rw [coversItems_iff, List.forall₂_cons_right_iff] at hvs
  obtain ⟨v, vs, hv, hvs, rfl⟩ := hvs
  obtain ⟨m, rfl, hm⟩ := h v hv
  obtain ⟨n, rfl, hn⟩ := hmore vs (coversItems_iff.2 hvs)
  exact ⟨_, by simp, .next hm hb hn⟩

theorem spells_noFields {b : List Char} (hb : Blank b) :
    Spells ('\x7b' :: (b ++ ['\x7d'])) (.object []) := by
  intro v hv
  obtain rfl | ⟨fs, rfl, hfs⟩ := covers_object hv
  · exact ⟨_, by simp, .ignored (.noFields hb)⟩
  · obtain rfl : fs = [] := by simpa [coversFields_iff] using hfs
    exact ⟨_, by simp, .noFields hb⟩

/-- Either all names can be read, or the fields make no value. -/
theorem objectOf_cases (gs : List (Option String × Json)) :
    (∃ fs : List (String × Json), gs = fs.map (fun f => (some f.1, f.2)) ∧
      objectOf gs = .object fs) ∨
      none ∈ gs.map Prod.fst ∧ objectOf gs = .unreadable := by
  suffices h : (∃ fs : List (String × Json), gs = fs.map (fun f => (some f.1, f.2)) ∧
      (gs.mapM fun g => g.1.map (·, g.2)) = some fs) ∨
      none ∈ gs.map Prod.fst ∧ (gs.mapM fun g => g.1.map (·, g.2)) = none by
    rcases h with ⟨fs, hgs, heq⟩ | ⟨hnone, heq⟩
    · exact .inl ⟨fs, hgs, objectOf_of_some heq⟩
    · exact .inr ⟨hnone, objectOf_of_none heq⟩
  induction gs with
  | nil => exact .inl ⟨[], rfl, rfl⟩
  | cons g gs ih =>
    obtain ⟨name, value⟩ := g
    cases name with
    | none => exact .inr ⟨by simp, by simp [List.mapM_cons]⟩
    | some name =>
      rcases ih with ⟨fs, rfl, heq⟩ | ⟨hnone, heq⟩
      · exact .inl ⟨(name, value) :: fs, rfl, by rw [List.mapM_cons, heq]; rfl⟩
      · exact .inr ⟨by simpa using hnone, by rw [List.mapM_cons, heq]; rfl⟩

theorem SpellsFields.spells {cs : List Char} {gs : List (Option String × Json)}
    (h : SpellsFields cs gs) : Spells ('\x7b' :: cs) (objectOf gs) := by
  intro v hv
  obtain ⟨m, rfl, hm⟩ := h gs (List.forall₂_same.2 fun g _ => ⟨rfl, covers_refl g.2⟩)
  obtain ⟨hs, rfl, heq⟩ | ⟨hnone, heq⟩ := objectOf_cases gs
  · rw [heq] at hv
    obtain rfl | ⟨fs, rfl, hfs⟩ := covers_object hv
    · exact ⟨_, by simp, .ignored (.object hm)⟩
    · obtain ⟨n, hn, hspelled⟩ := h (fs.map fun f => (some f.1, f.2))
        (by simpa [CoversLabelled, List.forall₂_map_left_iff, List.forall₂_map_right_iff]
          using coversFields_iff.1 hfs)
      exact ⟨_, by rw [Marked.text_cons, hn], .object hspelled⟩
  · rw [heq] at hv
    obtain rfl : v = .unreadable := or_self_iff.1 (covers_leaf hv (by simp) (by simp))
    exact ⟨_, by simp, .nameless hm hnone⟩

theorem Spells.lastField {label cs b : List Char} {name : Option String} {j : Json}
    (hname : Label name label) (h : Spells cs j) (hb : Blank b) :
    SpellsFields (label ++ (cs ++ (b ++ ['\x7d']))) [(name, j)] := by
  rintro _ hfs
  rw [CoversLabelled, List.forall₂_cons_right_iff] at hfs
  obtain ⟨⟨_, v⟩, _, ⟨rfl, hv⟩, ⟨⟩, rfl⟩ := hfs
  obtain ⟨m, rfl, hm⟩ := h v hv
  exact ⟨_, by simp, .last hname hm hb⟩

theorem Spells.nextField {label cs b ds : List Char} {name : Option String} {j : Json}
    {gs : List (Option String × Json)} (hname : Label name label) (h : Spells cs j) (hb : Blank b)
    (hmore : SpellsFields ds gs) :
    SpellsFields (label ++ (cs ++ (b ++ ',' :: ds))) ((name, j) :: gs) := by
  rintro _ hfs
  rw [CoversLabelled, List.forall₂_cons_right_iff] at hfs
  obtain ⟨⟨_, v⟩, fs, ⟨rfl, hv⟩, hfs, rfl⟩ := hfs
  obtain ⟨m, rfl, hm⟩ := h v hv
  obtain ⟨n, rfl, hn⟩ := hmore fs hfs
  exact ⟨_, by simp, .next hname hm hb hn⟩

theorem append_of_word? {word : String} {cs rest : List Char} (h : word? word cs = some rest) :
    cs = word.toList ++ rest := by
  unfold word? at h
  split at h
  · rename_i hprefix
    cases h
    obtain ⟨tail, rfl⟩ := List.isPrefixOf_iff_prefix.1 hprefix
    rw [← String.length_toList, List.drop_left]
  · cases h

theorem units_of_text? {cs rest : List Char} {s : Option String} (h : text? cs = some (s, rest)) :
    ∃ front us, cs = front ++ '"' :: rest ∧ Units front us ∧ unitText? us = s := by
  simp only [text?, Option.bind_eq_bind, Option.bind_eq_some_iff, Option.pure_def,
    Option.some.injEq, Prod.mk.injEq] at h
  obtain ⟨⟨us, tail⟩, hunits, rfl, rfl⟩ := h
  obtain ⟨front, rfl, hfront⟩ := units_of_units? hunits
  exact ⟨front, us, rfl, hfront, rfl⟩

/-- What the reader takes with so much fuel is spelled as the grammar says. -/
structure Sound (n : Nat) : Prop where
  value : ∀ {cs rest : List Char} {j : Json}, value? n cs = some (j, rest) →
    ∃ front, cs = front ++ rest ∧ Spells front j
  items : ∀ {cs rest : List Char} {js : List Json}, items? n cs = some (js, rest) →
    ∃ front, cs = front ++ rest ∧ SpellsItems front js
  fields : ∀ {cs rest : List Char} {gs : List (Option String × Json)},
    fields? n cs = some (gs, rest) → ∃ front, cs = front ++ rest ∧ SpellsFields front gs

theorem spells_of_value? {n : Nat} (hn : Sound n) {cs rest : List Char} {j : Json}
    (h : value? (n + 1) cs = some (j, rest)) : ∃ front, cs = front ++ rest ∧ Spells front j := by
  suffices hskip : ∃ front, skip cs = front ++ rest ∧ Spells front j by
    obtain ⟨front, hfront, hspells⟩ := hskip
    obtain ⟨b, hb, hcs⟩ := exists_blank hfront
    exact ⟨b ++ front, by rw [hcs, List.append_assoc], hspells.blanks hb⟩
  rw [value?] at h
  cases hcs : skip cs with
  | nil => simp [hcs] at h
  | cons c tail =>
    simp only [hcs, Option.bind_eq_bind, Option.pure_def] at h
    split_ifs at h with hquote hbracket hbrace hnull htrue hfalse
    · simp only [Option.bind_eq_some_iff, Option.some.injEq, Prod.mk.injEq] at h
      obtain ⟨⟨s, after⟩, htext, rfl, rfl⟩ := h
      obtain ⟨front, us, rfl, hunits, rfl⟩ := units_of_text? htext
      exact ⟨_, by simp [hquote], hunits.spells⟩
    · split at h
      · rename_i after hafter
        cases h
        obtain ⟨b, hb, rfl⟩ := exists_blank hafter
        exact ⟨_, by simp [hbracket], spells_noItems hb⟩
      · simp only [Option.bind_eq_some_iff, Option.some.injEq, Prod.mk.injEq] at h
        obtain ⟨⟨js, after⟩, hitems, rfl, rfl⟩ := h
        obtain ⟨front, rfl, hfront⟩ := hn.items hitems
        exact ⟨_, by simp [hbracket], hfront.spells⟩
    · split at h
      · rename_i after hafter
        cases h
        obtain ⟨b, hb, rfl⟩ := exists_blank hafter
        exact ⟨_, by simp [hbrace], spells_noFields hb⟩
      · simp only [Option.bind_eq_some_iff, Option.some.injEq, Prod.mk.injEq] at h
        obtain ⟨⟨gs, after⟩, hfields, rfl, rfl⟩ := h
        obtain ⟨front, rfl, hfront⟩ := hn.fields hfields
        exact ⟨_, by simp [hbrace], hfront.spells⟩
    · simp only [Option.bind_eq_some_iff, Option.some.injEq, Prod.mk.injEq] at h
      obtain ⟨after, hword, rfl, rfl⟩ := h
      exact ⟨_, append_of_word? hword, spells_word (by simp)⟩
    · simp only [Option.bind_eq_some_iff, Option.some.injEq, Prod.mk.injEq] at h
      obtain ⟨after, hword, rfl, rfl⟩ := h
      exact ⟨_, append_of_word? hword, spells_word (by simp)⟩
    · simp only [Option.bind_eq_some_iff, Option.some.injEq, Prod.mk.injEq] at h
      obtain ⟨after, hword, rfl, rfl⟩ := h
      exact ⟨_, append_of_word? hword, spells_word (by simp)⟩
    · obtain ⟨front, hfront, hdenotes⟩ := denotes_of_number? h
      exact ⟨front, hfront, hdenotes.spells⟩

theorem spells_of_items? {n : Nat} (hn : Sound n) {cs rest : List Char} {js : List Json}
    (h : items? (n + 1) cs = some (js, rest)) :
    ∃ front, cs = front ++ rest ∧ SpellsItems front js := by
  simp only [items?, Option.bind_eq_bind, Option.bind_eq_some_iff, Option.pure_def] at h
  obtain ⟨⟨j, tail⟩, hvalue, h⟩ := h
  obtain ⟨front, rfl, hfront⟩ := hn.value hvalue
  split at h
  · rename_i after hafter
    simp only [Option.bind_eq_some_iff, Option.some.injEq, Prod.mk.injEq] at h
    obtain ⟨⟨js, last⟩, hitems, rfl, rfl⟩ := h
    obtain ⟨b, hb, rfl⟩ := exists_blank hafter
    obtain ⟨more, rfl, hmore⟩ := hn.items hitems
    exact ⟨_, by simp, hfront.nextItem hb hmore⟩
  · rename_i after hafter
    cases h
    obtain ⟨b, hb, rfl⟩ := exists_blank hafter
    exact ⟨_, by simp, hfront.lastItem hb⟩
  · cases h

theorem spells_of_fields? {n : Nat} (hn : Sound n) {cs rest : List Char}
    {gs : List (Option String × Json)} (h : fields? (n + 1) cs = some (gs, rest)) :
    ∃ front, cs = front ++ rest ∧ SpellsFields front gs := by
  simp only [fields?, Option.bind_eq_bind, Option.pure_def] at h
  split at h
  · rename_i opened hopened
    simp only [Option.bind_eq_some_iff] at h
    obtain ⟨⟨name, closed⟩, htext, h⟩ := h
    split at h
    · rename_i payload hpayload
      simp only [Option.bind_eq_some_iff] at h
      obtain ⟨⟨j, tail⟩, hvalue, h⟩ := h
      obtain ⟨before, hbefore, rfl⟩ := exists_blank hopened
      obtain ⟨text, us, rfl, hunits, rfl⟩ := units_of_text? htext
      obtain ⟨after, hafter, rfl⟩ := exists_blank hpayload
      obtain ⟨front, rfl, hfront⟩ := hn.value hvalue
      have hlabel := Label.mk hbefore hafter hunits
      split at h
      · rename_i tail' htail
        simp only [Option.bind_eq_some_iff, Option.some.injEq, Prod.mk.injEq] at h
        obtain ⟨⟨gs, last⟩, hfields, rfl, rfl⟩ := h
        obtain ⟨b, hb, rfl⟩ := exists_blank htail
        obtain ⟨more, rfl, hmore⟩ := hn.fields hfields
        exact ⟨_, by simp, hfront.nextField hlabel hb hmore⟩
      · rename_i tail' htail
        cases h
        obtain ⟨b, hb, rfl⟩ := exists_blank htail
        exact ⟨_, by simp, hfront.lastField hlabel hb⟩
      · cases h
    · cases h
  · cases h

theorem sound (n : Nat) : Sound n := by
  induction n with
  | zero => exact ⟨by simp [value?], by simp [items?], by simp [fields?]⟩
  | succ n ih => exact ⟨spells_of_value? ih, spells_of_items? ih, spells_of_fields? ih⟩

/-! ## Whole texts -/

/-- A text of the grammar is read as a value that its outline covers. -/
theorem read?_of_spelled {v : Json} {m : Marked} {b : List Char} (h : Spelled v m) (hb : Blank b) :
    ∃ j, v.Covers j ∧ read? (String.ofList (m.text ++ b)) = some j := by
  have hstops : Stops b := by simpa using stops_append hb stops_nil
  obtain ⟨j, hj, hread⟩ := value?_of_spelled h (2 * (m.text ++ b).length + 2) b hstops
    (by rw [List.length_append, Marked.length_text]; omega)
  have hskip : skip b = [] := List.dropWhile_eq_nil_iff.2 hb
  refine ⟨j, hj, ?_⟩
  unfold read?
  simp only [String.toList_ofList, hread, Option.bind_eq_bind, Option.bind_some, hskip]
  rfl

/-- A text that is read spells out each outline of its value. -/
theorem spelled_of_read? {t : String} {v j : Json} (h : read? t = some j) (hv : v.Covers j) :
    ∃ (m : Marked) (b : List Char), t.toList = m.text ++ b ∧ Spelled v m ∧ Blank b := by
  simp only [read?, Option.bind_eq_bind, Option.bind_eq_some_iff] at h
  obtain ⟨⟨_, rest⟩, hvalue, hrest⟩ := h
  split at hrest
  · rename_i hempty
    cases hrest
    obtain ⟨front, hfront, hspells⟩ := (sound _).value hvalue
    obtain ⟨m, rfl, hm⟩ := hspells v hv
    exact ⟨m, rest, hfront, hm, List.dropWhile_eq_nil_iff.1 (List.isEmpty_iff.1 hempty)⟩
  · cases hrest

end Transact.Json
