import Transact.Proofs.ExposedName
import Transact.Proofs.Sql.Enclosed
import Transact.Proofs.Sql.Reader

/-!
# Dotted names read back

`scanPath` reads names in brackets with dots between them, the way the server does: two closing
brackets stand for one, a single one ends the name, and after a dot another name has to stand.

* `scanPath_eq_some_iff`: names with dots between them are read as they were written, up to a place
  where neither a bracket nor a dot goes on with them.
* `scanPath_dottedName_iff`: a dotted name is read as its parts, whatever is in them and whatever
  follows, so no two names are written alike.
-/

set_option autoImplicit false

namespace Transact.Sql

open Text

/-! ## Names with dots between them -/

/-- The names at the front, with dots between them, and what follows. -/
def scanPath : List Char → Option (List (List Char) × List Char)
  | '[' :: cs =>
    match _hscan : scanEnclosed ']' cs with
    | none => none
    | some (name, '.' :: rest) => (scanPath rest).map (Prod.map (name :: ·) id)
    | some (name, rest) => some ([name], rest)
  | _ => none
termination_by cs => cs.length
decreasing_by
  have := length_lt_of_scanEnclosed _hscan
  simp only [List.length_cons] at this ⊢
  omega

/-- A name that no dot follows is the last one. -/
theorem scanPath_last {cs name rest : List Char} (h : scanEnclosed ']' cs = some (name, rest))
    (hrest : rest.head? ≠ some '.') : scanPath ('[' :: cs) = some ([name], rest) := by
  rw [scanPath]
  split
  case h_1 hnone => cases h.symm.trans hnone
  case h_2 hdot =>
    cases h.symm.trans hdot
    exact absurd rfl hrest
  case h_3 hsome =>
    cases h.symm.trans hsome
    rfl

/-- After a dot the next name is read. -/
theorem scanPath_dot {cs name rest : List Char}
    (h : scanEnclosed ']' cs = some (name, '.' :: rest)) :
    scanPath ('[' :: cs) = (scanPath rest).map (Prod.map (name :: ·) id) := by
  rw [scanPath]
  split
  case h_1 hnone => cases h.symm.trans hnone
  case h_2 hdot =>
    cases h.symm.trans hdot
    rfl
  case h_3 hother hsome =>
    cases h.symm.trans hsome
    exact (hother _ rfl).elim

/-- The text of names in brackets with dots between them. -/
def pathText (names : List (List Char)) : List Char := (join "." (names.map bracketed)).toList

theorem pathText_singleton (name : List Char) :
    pathText [name] = '[' :: (double ']' name ++ [']']) := by
  simp [pathText, join, bracketed]

theorem pathText_cons_cons (name next : List Char) (names : List (List Char)) :
    pathText (name :: next :: names) =
      '[' :: (double ']' name ++ ']' :: '.' :: pathText (next :: names)) := by
  simp [pathText, join, bracketed]

/-- Nothing that follows goes on with a dotted name. -/
def EndsPath (rest : List Char) : Prop := rest.head? ≠ some '.' ∧ rest.head? ≠ some ']'

instance (rest : List Char) : Decidable (EndsPath rest) := inferInstanceAs (Decidable (_ ∧ _))

theorem scanPath_pathText {rest : List Char} (hrest : EndsPath rest) :
    ∀ {names : List (List Char)}, names ≠ [] →
      scanPath (pathText names ++ rest) = some (names, rest)
  | [name], _ => by
    have hscan := scanEnclosed_double hrest.2 name
    rw [pathText_singleton, List.cons_append, List.append_assoc]
    exact scanPath_last hscan hrest.1
  | name :: next :: names, _ => by
    have ih := scanPath_pathText hrest (List.cons_ne_nil next names)
    -- the dot after the first name is what its closing bracket is told by
    have hdot : ('.' :: (pathText (next :: names) ++ rest)).head? ≠ some ']' := by simp
    have hscan := scanEnclosed_double hdot name
    rw [pathText_cons_cons, List.cons_append, List.append_assoc]
    exact (scanPath_dot hscan).trans (by rw [ih]; rfl)

theorem eq_pathText_of_scanPath {cs rest : List Char} {names : List (List Char)}
    (h : scanPath cs = some (names, rest)) :
    names ≠ [] ∧ cs = pathText names ++ rest ∧ EndsPath rest := by
  fun_induction scanPath cs generalizing names rest with
  | case1 cs hscan => cases h
  | case2 cs name after hscan ih =>
    obtain ⟨⟨names', rest'⟩, hafter, he⟩ := Option.map_eq_some_iff.1 h
    cases he
    obtain ⟨hne, rfl, hrest⟩ := ih hafter
    obtain ⟨next, names', rfl⟩ := List.exists_cons_of_ne_nil hne
    obtain ⟨rfl, -⟩ := eq_double_of_scanEnclosed hscan
    refine ⟨List.cons_ne_nil _ _, ?_, hrest⟩
    show _ = pathText (name :: next :: names') ++ _
    simp [pathText_cons_cons]
  | case3 cs name after hother hscan =>
    cases h
    obtain ⟨rfl, hclose⟩ := eq_double_of_scanEnclosed hscan
    refine ⟨List.cons_ne_nil _ _, by simp [pathText_singleton], fun hdot => ?_, hclose⟩
    obtain ⟨tail, htail⟩ := List.head?_eq_some_iff.1 hdot
    exact hother tail htail
  | case4 cs hcs => cases h

/-- **Names with dots between them are read** exactly from the text that they are written as. -/
theorem scanPath_eq_some_iff {cs rest : List Char} {names : List (List Char)} :
    scanPath cs = some (names, rest) ↔
      names ≠ [] ∧ cs = pathText names ++ rest ∧ EndsPath rest := by
  constructor
  · exact eq_pathText_of_scanPath
  · rintro ⟨hne, rfl, hrest⟩
    exact scanPath_pathText hrest hne

/-! ## Dotted names -/

/-- **A dotted name is read as its parts**, in order, and from no other text: whatever is in the
name and whatever follows, reading ends right behind it, and no token does so before. Its parts are
the dotless pieces that it is joined from, and no two names are written alike. -/
theorem scanPath_dottedName_iff :
    (∀ (s : String) (cs rest : List Char), EndsPath rest →
      (scanPath cs = some (split '.' s.toList, rest) ↔ cs = (dottedName s).toList ++ rest)) ∧
    (∀ (s : String) (rest : List Char), EndsPath rest →
      lex .between ((dottedName s).toList ++ rest) =
        pathTokens (nameParts s) ++ lex .between rest) ∧
    (∀ s : String, join "." (nameParts s) = s ∧ ∀ part ∈ split '.' s.toList, '.' ∉ part) ∧
    Function.Injective dottedName := by
  have hreads : ∀ (s : String) (cs rest : List Char), EndsPath rest →
      (scanPath cs = some (split '.' s.toList, rest) ↔ cs = (dottedName s).toList ++ rest) := by
    intro s cs rest hrest
    rw [scanPath_eq_some_iff]
    exact ⟨fun h => h.2.1, fun h => ⟨split_ne_nil _ _, h, hrest⟩⟩
  have hjoin : ∀ s : String, join "." (nameParts s) = s := fun s =>
    String.toList_inj.1 (toList_join_split _)
  refine ⟨hreads, fun s rest hrest => ?_, fun s => ⟨hjoin s, fun _ => notMem_of_mem_split⟩,
    fun s s' h => ?_⟩
  · rw [dottedName_eq]
    exact lex_path hrest.2 (nameParts_ne_nil s)
  · have hnil : EndsPath [] := by decide
    have hread := (hreads s _ [] hnil).2 rfl
    rw [h, (hreads s' _ [] hnil).2 rfl, Option.some.injEq, Prod.mk.injEq] at hread
    rw [← hjoin s, ← hjoin s', nameParts, nameParts, hread.1]

theorem scanPath_dottedName_brackets :
    EndsPath " = 1".toList ∧
      scanPath "[a]]]]].[[b]]].[] = 1".toList =
        some (["a]]".toList, "[b]".toList, []], " = 1".toList) := by
  have hends : EndsPath " = 1".toList := by decide
  exact ⟨hends, (scanPath_dottedName_iff.1 "a]].[b]." _ _ hends).2 (by decide)⟩

end Transact.Sql
