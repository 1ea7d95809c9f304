import Transact.Compile
import Transact.Proofs.QueryText

/-!
# The names that tables are referred to by

A table is written with whole names, while the qualifier of a column is split at its dots. So a
reference that the compiler makes from a table meets the name that the table is exposed under only
where this name has no dot.

* `Sql.dottedName_eq_name_iff`: splitting leaves a name whole exactly when it has no dot.
* `TableRef.sql_exposed`: the exposed name stands last in the text of the table, and is read back.
* `TableRef.qualifies_exposed_iff`: when the references made from a table meet it.
-/

set_option autoImplicit false

namespace Transact

open Sql Text

/-! ## Names that are split -/

theorem Text.notMem_of_mem_split {sep : Char} : ∀ {cs piece : List Char},
    piece ∈ split sep cs → sep ∉ piece
  | [], piece, h => by
    obtain rfl := List.mem_singleton.1 h
    exact List.not_mem_nil
  | c :: cs, piece, h => by
    rw [split] at h
    split at h
    case isTrue =>
      rcases List.mem_cons.1 h with rfl | h
      · exact List.not_mem_nil
      · exact notMem_of_mem_split h
    case isFalse hc =>
      obtain ⟨first, pieces, hsplit⟩ := List.exists_cons_of_ne_nil (split_ne_nil sep cs)
      have ih : ∀ piece ∈ first :: pieces, sep ∉ piece := fun piece hpiece =>
        notMem_of_mem_split (hsplit ▸ hpiece)
      rw [hsplit] at h
      rcases List.mem_cons.1 h with rfl | h
      · intro hmem
        rcases List.mem_cons.1 hmem with rfl | hmem
        · exact hc rfl
        · exact ih first List.mem_cons_self hmem
      · exact ih piece (List.mem_cons_of_mem _ h)

theorem nameParts_ne_nil (s : String) : nameParts s ≠ [] := by
  rw [nameParts, Ne, List.map_eq_nil_iff]
  exact split_ne_nil _ _

/-- A name is its only part exactly when it has no dot. -/
theorem nameParts_eq_singleton_iff {s : String} : nameParts s = [s] ↔ '.' ∉ s.toList := by
  constructor
  · intro h
    obtain ⟨piece, hsplit, hpiece⟩ := List.map_eq_singleton_iff.1 h
    have hdot : '.' ∉ piece := notMem_of_mem_split (hsplit ▸ List.mem_singleton_self piece)
    rwa [← hpiece, String.toList_ofList]
  · intro h
    rw [nameParts, split_of_notMem h, List.map_singleton, String.ofList_toList]

/-- The parts of a dotted name are read back. -/
theorem Sql.path?_dottedName (s : String) : path? (tokens (dottedName s)) = some (nameParts s) := by
  have hparts := nameParts_ne_nil s
  rw [dottedName_eq, (Reads.path hparts).tokens_eq, path?_pathTokens hparts]

theorem Sql.path?_name (s : String) : path? (tokens (Sql.name s)) = some [s] := by
  rw [(Reads.name s).tokens_eq, path?]

theorem Sql.dottedName_eq_name_iff {s : String} :
    dottedName s = Sql.name s ↔ '.' ∉ s.toList := by
  rw [← nameParts_eq_singleton_iff]
  constructor
  · intro h
    have hparts := path?_dottedName s
    rw [h, path?_name] at hparts
    exact (Option.some.inj hparts).symm
  · intro h
    rw [dottedName_eq, h]
    rfl

/-! ## References to a table -/

namespace TableRef

/-- The name that the table is exposed under: its alias, or else its own name. -/
def exposed (t : TableRef) : String :=
  match t.aliasName with
  | some other => Sql.name other
  | none => Sql.name t.name

/-- The columns that the compiler refers to of its own accord. -/
def references (t : TableRef) : List ColumnRef := t.keyColumn?.toList ++ t.columnRefs

theorem exposed_eq (t : TableRef) : t.exposed = Sql.name t.qualifier := by
  rw [exposed, qualifier]
  cases t.aliasName <;> rfl

theorem table_of_mem_references {t : TableRef} {r : ColumnRef} (h : r ∈ t.references) :
    r.table = some t.qualifier := by
  rcases List.mem_append.1 h with h | h
  · obtain ⟨key, -, rfl⟩ := Option.map_eq_some_iff.1 (Option.mem_toList.1 h)
    rfl
  · obtain ⟨name, -, rfl⟩ := List.mem_map.1 h
    rfl

/-- **The exposed name** stands last in the text of the table, and is read as a name there. -/
theorem sql_exposed (t : TableRef) : ∃ before,
    t.sql = before ++ t.exposed ∧ ∃ ts, tokens t.sql = ts ++ [.name t.qualifier] := by
  have hpath : Reads (join "." ((t.schema.toList ++ [t.name]).map Sql.name))
      (pathTokens (t.schema.toList ++ [t.name])) := Reads.path (by simp)
  rw [sql, exposed, qualifier]
  cases t.aliasName with
  | some other =>
    have has : Leads " AS " [.word "AS"] := fun _ => rfl
    exact ⟨_, rfl, _, ((hpath.lead has rfl).read (.name other)).tokens_eq⟩
  | none =>
    rw [hpath.tokens_eq]
    cases t.schema with
    | none => exact ⟨"", String.empty_append.symm, [], rfl⟩
    | some schema => exact ⟨Sql.name schema ++ ".", rfl, [.name schema, .dot], rfl⟩

/-- **References meet the table** exactly when the name it is exposed under has no dot: the exposed
name, the last one in the text of the table, is whole there, while in the qualifier of a reference
its parts stand apart. -/
theorem qualifies_exposed_iff (t : TableRef) :
    (∃ before, t.sql = before ++ t.exposed ∧ ∃ ts, tokens t.sql = ts ++ [.name t.qualifier]) ∧
    ∀ r ∈ t.references, ∃ qualifier,
      r.sql = qualifier ++ "." ++ Sql.name r.name ∧
      path? (tokens qualifier) = some (nameParts t.qualifier) ∧
      (qualifier = t.exposed ↔ '.' ∉ t.qualifier.toList) := by
  refine ⟨sql_exposed t, fun r hr => ⟨dottedName t.qualifier, ?_, path?_dottedName _, ?_⟩⟩
  · rw [ColumnRef.sql, table_of_mem_references hr]
  · rw [exposed_eq]
    exact dottedName_eq_name_iff

/-- The table `people]` of the schema `dbo.x`, with a key. -/
def bracketedPeople : TableRef :=
  { name := "people]", schema := some "dbo.x", primaryKey := some "id" }

theorem qualifies_exposed_bracketedPeople :
    ∃ key, key ∈ bracketedPeople.references ∧ ∃ qualifier,
      key.sql = qualifier ++ "." ++ Sql.name key.name ∧ '.' ∉ bracketedPeople.qualifier.toList ∧
      qualifier = bracketedPeople.exposed ∧ bracketedPeople.exposed = "[people]]]" ∧
      bracketedPeople.sql = "[dbo.x].[people]]]" := by
  have hkey : (⟨some "people]", "id"⟩ : ColumnRef) ∈ bracketedPeople.references := by decide
  have hdot : '.' ∉ bracketedPeople.qualifier.toList := by decide
  obtain ⟨-, hreferences⟩ := qualifies_exposed_iff bracketedPeople
  obtain ⟨qualifier, hsql, -, hexposed⟩ := hreferences _ hkey
  exact ⟨_, hkey, qualifier, hsql, hdot, hexposed.2 hdot, rfl, rfl⟩

/-- The second page of a table whose name has a dot, in the order of its key. -/
def dottedPage : Select :=
  .of
    { cores :=
        [{ projections := [.wildcard none]
           source := some (.table { name := "a.b", primaryKey := some "id" }) }]
      offset := some (.int 1) }

/-- A table whose name has a dot is exposed as `[a.b]`, and its key is looked for in `[a].[b]`. -/
theorem not_qualifies_exposed :
    ∃ t key, key ∈ references t ∧ t.exposed = "[a.b]" ∧ key.sql = "[a].[b].[id]" ∧
      Statement.sql {} (.select dottedPage) =
        .ok ("SELECT [__rnt].* FROM (SELECT ROW_NUMBER() OVER (ORDER BY [a].[b].[id] ASC) AS " ++
          "[__rn], * FROM [a.b]) AS [__rnt] WHERE [__rnt].[__rn] > (1) " ++
          "ORDER BY [__rnt].[__rn] ASC") := by
  refine ⟨{ name := "a.b", primaryKey := some "id" }, ⟨some "a.b", "id"⟩, ?_, rfl, rfl, ?_⟩
  · decide
  · decide +kernel

end TableRef

end Transact
