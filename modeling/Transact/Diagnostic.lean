/-!
# Diagnostics

What the library tells its user when it refuses an input: a reason, hints, and a code that programs
can rely on.
-/

set_option autoImplicit false

namespace Transact

/-- Why an input was refused. -/
inductive Reason where
  | simple (text : String)
  | unexpected (found : String)
  /-- a fault of the library itself -/
  | bug (details : Option String)
deriving DecidableEq

/-- The wording of a reason. -/
def Reason.text : Reason → String
  | .simple text => text
  | .unexpected found => "unexpected " ++ found
  | .bug none => "internal compiler error"
  | .bug (some details) => "internal compiler error; " ++ details

/-- A refusal. -/
structure Diagnostic where
  reason : Reason
  hints : List String := []
  code : Option String := none
deriving DecidableEq

namespace Diagnostic

/-- The refusal of a word that names none of the values asked for. -/
def unmatched : Diagnostic where
  reason := .unexpected "Matching variant not found"

/-- One more hint, after the others. -/
def pushHint (d : Diagnostic) (hint : String) : Diagnostic :=
  { d with hints := d.hints ++ [hint] }

/-- These hints in place of the others. -/
def withHints (d : Diagnostic) (hints : List String) : Diagnostic :=
  { d with hints := hints }

/-- This code in place of another. -/
def withCode (d : Diagnostic) (code : String) : Diagnostic :=
  { d with code := some code }

/-- The message: code, reason, and a line for each hint. -/
def message (d : Diagnostic) : String :=
  let code := d.code.elim "" fun code => "[" ++ code ++ "] "
  let hints := d.hints.map fun hint => "\n↳ Hint: " ++ hint
  code ++ "Error: " ++ d.reason.text ++ String.join hints

end Diagnostic

end Transact
