import Transact.Proofs.Json.Brackets
import Transact.Proofs.Json.Doubles

/-!
# Written JSON

A value that the reader can give is written as a text of the grammar. Main statements:

* `Json.spelled_write`: the text of a value spells it out, its doubles reread.
* `Json.read?_write`: the text of a value is read as that value, its doubles reread.
* `Json.openPeak_write`: the brackets open at once in the text are the nesting of the value.
-/

set_option autoImplicit false

namespace Transact.Json

open Text Number
open Marked (shown)

mutual

/-- The value is one that a text can have: every text and name can be read, and every integer fits
in 64 bits, signed or not. -/
def Readable : Json → Prop
  | .null => True
  | .bool _ => True
  | .integer i => -9223372036854775808 ≤ i ∧ i ≤ 18446744073709551615
  | .float _ => True
  | .unreadable => False
  | .string _ => True
  | .array items => ReadableItems items
  | .object fields => ReadableFields fields

/-- The items are readable. -/
def ReadableItems : List Json → Prop
  | [] => True
  | item :: items => item.Readable ∧ ReadableItems items

/-- The values of the fields are readable. -/
def ReadableFields : List (String × Json) → Prop
  | [] => True
  | (_, value) :: fields => value.Readable ∧ ReadableFields fields

end

theorem readableItems_iff (items : List Json) :
    ReadableItems items ↔ ∀ item ∈ items, item.Readable := by
  induction items with
  | nil => simp [ReadableItems]
  | cons item items ih => simp [ReadableItems, ih]

/-! ## The written text -/

theorem toList_quoted (s : String) :
    (quoted s).toList = '"' :: (s.toList.flatMap escaped ++ ['"']) := by
  simp [quoted]

/-- The text of the items of an array after its opening bracket. -/
def itemsText (items : List Json) : List Char := (join "," (writeItems items)).toList

/-- The text of the fields of an object after its opening bracket. -/
def fieldsText (fields : List (String × Json)) : List Char :=
  (join "," (writeFields fields)).toList

theorem toList_write_array (items : List Json) :
    (write (.array items)).toList = '[' :: (itemsText items ++ [']']) := by
  simp [write, itemsText]

theorem toList_write_object (fields : List (String × Json)) :
    (write (.object fields)).toList = '\x7b' :: (fieldsText fields ++ ['\x7d']) := by
  simp [write, fieldsText]

theorem itemsText_singleton (item : Json) : itemsText [item] = (write item).toList := rfl

theorem itemsText_cons (item next : Json) (items : List Json) :
    itemsText (item :: next :: items) =
      (write item).toList ++ ',' :: itemsText (next :: items) := by
  simp [itemsText, writeItems, join]

theorem fieldsText_singleton (name : String) (value : Json) :
    fieldsText [(name, value)] = (quoted name).toList ++ ':' :: (write value).toList := by
  simp [fieldsText, writeFields, join]

theorem fieldsText_cons (name : String) (value : Json) (next : String × Json)
    (fields : List (String × Json)) :
    fieldsText ((name, value) :: next :: fields) =
      (quoted name).toList ++
        ':' :: ((write value).toList ++ ',' :: fieldsText (next :: fields)) := by
  simp [fieldsText, writeFields, join]

theorem label_quoted (name : String) : Label (some name) ((quoted name).toList ++ [':']) := by
  have h := Label.mk blank_nil blank_nil (units_flatMap_escaped name.toList)
  rw [unitText?_map_toNat] at h
  simpa [toList_quoted] using h

mutual

/-- A value is spelled out by its own text, with every double as it is read. -/
theorem spelled_write : ∀ j : Json, j.Readable →
    Spelled (j.mapFloats Binary64.reread) (shown j.write.toList)
  | .null, _ => .word (show ("null", Json.null) ∈ _ by simp)
  | .bool true, _ => .word (show ("true", Json.bool true) ∈ _ by simp)
  | .bool false, _ => .word (show ("false", Json.bool false) ∈ _ by simp)
  | .integer i, hj => .number (denotes_integer hj.1 hj.2)
  | .float x, _ => .number (denotes_render x)
  | .unreadable, hj => hj.elim
  | .string s, _ => by
    have h := Spelled.text (units_flatMap_escaped s.toList)
    rw [unitText?_map_toNat, ← toList_quoted] at h
    exact h
  | .array [], _ => .noItems blank_nil
  | .array (item :: items), hj => by
    rw [toList_write_array]
    exact .array (spelledItems_write (item :: items) (by simp) hj)
  | .object [], _ => .noFields blank_nil
  | .object (field :: fields), hj => by
    rw [toList_write_object]
    exact .object (spelledFields_write (field :: fields) (by simp) hj)

theorem spelledItems_write : ∀ items : List Json, items ≠ [] → ReadableItems items →
    SpelledItems (mapFloatsItems Binary64.reread items) (shown (itemsText items ++ [']']))
  | [], hne, _ => absurd rfl hne
  | [item], _, hitems => by
    rw [itemsText_singleton, Marked.shown_append]
    exact .last (spelled_write item hitems.1) blank_nil
  | item :: next :: items, _, hitems => by
    rw [itemsText_cons, List.append_assoc, Marked.shown_append]
    exact .next (spelled_write item hitems.1) blank_nil
      (spelledItems_write (next :: items) (by simp) hitems.2)

theorem spelledFields_write : ∀ fields : List (String × Json), fields ≠ [] →
    ReadableFields fields →
      SpelledFields ((mapFloatsFields Binary64.reread fields).map fun f => (some f.1, f.2))
        (shown (fieldsText fields ++ ['\x7d']))
  | [], hne, _ => absurd rfl hne
  | [(name, value)], _, hfields => by
    have h := SpelledFields.last (label_quoted name) (spelled_write value hfields.1) blank_nil
    simpa [fieldsText_singleton] using h
  | (name, value) :: next :: fields, _, hfields => by
    have h := SpelledFields.next (label_quoted name) (spelled_write value hfields.1) blank_nil
      (spelledFields_write (next :: fields) (by simp) hfields.2)
    simpa [fieldsText_cons] using h

end

mutual

/-- A value that leaves nothing open is an outline of itself only. -/
theorem eq_of_covers : ∀ {v j : Json}, v.Readable → v.Covers j → j = v
  | .null, _, _, h | .bool _, _, _, h | .integer _, _, _, h | .float _, _, _, h
  | .string _, _, _, h => h
  | .unreadable, _, hv, _ => hv.elim
  | .array _, _, hv, h => by
    obtain ⟨js, rfl, hjs⟩ := h
    rw [eq_of_coversItems hv hjs]
  | .object _, _, hv, h => by
    obtain ⟨gs, rfl, hgs⟩ := h
    rw [eq_of_coversFields hv hgs]

theorem eq_of_coversItems : ∀ {vs js : List Json}, ReadableItems vs → CoversItems vs js → js = vs
  | [], _, _, h => h
  | _ :: _, _, hvs, h => by
    obtain ⟨j, js, rfl, hj, hjs⟩ := h
    rw [eq_of_covers hvs.1 hj, eq_of_coversItems hvs.2 hjs]

theorem eq_of_coversFields : ∀ {fs gs : List (String × Json)}, ReadableFields fs →
    CoversFields fs gs → gs = fs
  | [], _, _, h => h
  | (_, _) :: _, _, hfs, h => by
    obtain ⟨j, gs, rfl, hj, hgs⟩ := h
    rw [eq_of_covers hfs.1 hj, eq_of_coversFields hfs.2 hgs]

end

/-! ## Replaced doubles -/

section

variable (f : Binary64 → Binary64)

mutual

theorem readable_mapFloats : ∀ j : Json, j.Readable → (j.mapFloats f).Readable
  | .null, hj | .bool _, hj | .integer _, hj | .float _, hj | .unreadable, hj | .string _, hj => hj
  | .array items, hj => readableItems_mapFloats items hj
  | .object fields, hj => readableFields_mapFloats fields hj

theorem readableItems_mapFloats : ∀ items : List Json, ReadableItems items →
    ReadableItems (mapFloatsItems f items)
  | [], h => h
  | item :: items, h => ⟨readable_mapFloats item h.1, readableItems_mapFloats items h.2⟩

theorem readableFields_mapFloats : ∀ fields : List (String × Json), ReadableFields fields →
    ReadableFields (mapFloatsFields f fields)
  | [], h => h
  | (_, value) :: fields, h => ⟨readable_mapFloats value h.1, readableFields_mapFloats fields h.2⟩

end

mutual

theorem nesting_mapFloats : ∀ j : Json, (j.mapFloats f).nesting = j.nesting
  | .null | .bool _ | .integer _ | .float _ | .unreadable | .string _ => rfl
  | .array items => congrArg (· + 1) (nestingItems_mapFloats items)
  | .object fields => congrArg (· + 1) (nestingFields_mapFloats fields)

theorem nestingItems_mapFloats : ∀ items : List Json,
    nestingItems (mapFloatsItems f items) = nestingItems items
  | [] => rfl
  | item :: items => congrArg₂ max (nesting_mapFloats item) (nestingItems_mapFloats items)

theorem nestingFields_mapFloats : ∀ fields : List (String × Json),
    nestingFields (mapFloatsFields f fields) = nestingFields fields
  | [] => rfl
  | (_, value) :: fields => congrArg₂ max (nesting_mapFloats value) (nestingFields_mapFloats fields)

end

end

/-- The text of a value is read as that value, its doubles reread. -/
theorem read?_write {j : Json} (hj : j.Readable) :
    read? j.write = some (j.mapFloats Binary64.reread) := by
  obtain ⟨i, hi, hread⟩ := read?_of_spelled (spelled_write j hj) blank_nil
  rw [eq_of_covers (readable_mapFloats _ j hj) hi] at hread
  simpa using hread

/-- The brackets open at once in the text of a value are the nesting of the value. -/
theorem openPeak_write {j : Json} (hj : j.Readable) : openPeak j.write = j.nesting := by
  have h := openPeak_visible (spelled_write j hj) blank_nil
  rw [nesting_mapFloats] at h
  simpa using h

end Transact.Json
