import Transact.Select
import Transact.Text.Basic
import Transact.Trace

/-!
# Correlated joins

A joined text may join a table again that the statement already left-joins. Without an alias the
condition of the text would be about the first occurrence of the table, so the second one gets the
alias `<table>_crltd`, and the first reference to the table in the condition is redirected to it.
-/

set_option autoImplicit false

namespace Transact

open Text

/-- The name in brackets right at the front of the text, after `JOIN `. -/
def joinedHere? (cs : List Char) : Option (List Char) :=
  let keyword := "JOIN [".toList
  if keyword.isPrefixOf cs then
    let rest := cs.drop keyword.length
    let inside := rest.takeWhile (· != ']')
    if inside.isEmpty || (rest.dropWhile (· != ']')).isEmpty then none else some inside
  else none

/-- The table that the first join in the text names in brackets. -/
def joinedTable? : List Char → Option (List Char)
  | [] => none
  | c :: cs =>
    match joinedHere? (c :: cs) with
    | some name => some name
    | none => joinedTable? cs

/-- The text with the alias, unless it joins another table or has the alias already. -/
def correlate? (fragment table : List Char) : Option (List Char) := do
  let joined ← joinedTable? fragment
  let second := "[".toList ++ table ++ "_crltd]".toList
  if joined = table && !occurs ("AS ".toList ++ second) fragment then
    let keyword := " ON ".toList
    let (before, after) ← cut keyword fragment
    let reference := "[".toList ++ table ++ "].".toList
    some
      (before ++ " AS ".toList ++ second ++
        replaceFirst reference (second ++ ['.']) (keyword ++ after))
  else none

namespace Source

variable {σ : Type}

/-- The source with the alias where it is needed, and what there is to say about it. Only the
outermost join is looked at: text joined to a left join with a table. -/
def correlated : Source σ → Source σ × List Message
  | .join .fragment (.join .leftOuter left (.table t) condition) (.raw fragment) rest =>
    match correlate? fragment.toList t.name.toList with
    | some fixed =>
      let text := String.ofList fixed
      (.join .fragment (.join .leftOuter left (.table t) condition) (.raw text) rest,
        [.correlated t.name text])
    | none =>
      (.join .fragment (.join .leftOuter left (.table t) condition) (.raw fragment) rest, [])
  | s => (s, [])

end Source

/-- The core with its source correlated. -/
def Core.correlated {σ : Type} (c : Core σ) : Trace (Core σ) :=
  match c.source with
  | none => pure c
  | some source => do
    let (source, said) := source.correlated
    Trace.sayAll said
    pure { c with source := some source }

end Transact
