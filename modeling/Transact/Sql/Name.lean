import Transact.Text.Basic

/-!
# Names in SQL

A name is written in brackets, with every closing bracket inside it doubled. A dotted name is a
sequence of names with dots between them.
-/

set_option autoImplicit false

namespace Transact.Sql

open Text

/-- A single name in brackets. -/
def bracketed (cs : List Char) : String := "[" ++ String.ofList (double ']' cs) ++ "]"

/-- A single name. -/
def name (s : String) : String := bracketed s.toList

/-- A name whose parts are separated by dots. -/
def dottedName (s : String) : String := join "." ((split '.' s.toList).map bracketed)

end Transact.Sql
