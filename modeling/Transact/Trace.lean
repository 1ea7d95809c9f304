import Transact.Diagnostic

/-!
# Traces

A computation that may fail and that says on the way what it does. What was said before a failure is
kept beside it.
-/

set_option autoImplicit false

namespace Transact

/-- The four ways in which a select is compiled. -/
inductive Strategy where
  /-- the rows of a limited count are numbered and then counted -/
  | count
  /-- distinct rows are sorted by something that is not projected -/
  | distinctOrder
  /-- rows are numbered and those up to an offset left out -/
  | paginated
  | plain
deriving DecidableEq

/-- The name of a strategy in the log. -/
def Strategy.label : Strategy → String
  | .count => "ComplexCount"
  | .distinctOrder => "DistinctForeignOrder"
  | .paginated => "Paginated"
  | .plain => "Plain"

/-- What a compilation says about itself. -/
inductive Message where
  /-- a name of the compiler gave way to a name of the statement -/
  | renamed (base name : String)
  /-- some sort key is not projected -/
  | foreignOrder
  | strategy (s : Strategy)
  /-- distinct values are limited by grouping -/
  | groupedLimit
  /-- no projection can be ranked by -/
  | unrankable
  /-- there is nothing to number rows by -/
  | arbitraryOrder
  /-- a joined text was given an alias -/
  | correlated (table fragment : String)
  /-- an update is ordered or limited but has no key -/
  | unkeyedUpdate (table : String)
deriving DecidableEq

/-- The severity and the wording of a message. -/
def Message.text : Message → String
  | .renamed base name =>
    "DEBUG synthetic name `" ++ base ++ "` is in use, renamed to `" ++ name ++ "`"
  | .foreignOrder => "DEBUG ordering is not among the projections"
  | .strategy s => "DEBUG compiling SELECT as " ++ s.label
  | .groupedLimit => "DEBUG limiting distinct values with GROUP BY"
  | .unrankable => "DEBUG no rankable projection; ranking by the row table orders"
  | .arbitraryOrder =>
    "WARN no order, primary key or known column to number rows by; numbering in arbitrary order"
  | .correlated table fragment =>
    "DEBUG correlated join fragment on `" ++ table ++ "`: " ++ fragment
  | .unkeyedUpdate table =>
    "WARN UPDATE of `" ++ table ++
      "` is ordered or limited but has no key column; ordering is dropped"

/-- Why a statement cannot be compiled. -/
inductive CompileError where
  /-- a select has no core -/
  | noCore
  /-- the shape of a select says that it projects the primary key, and it projects no column -/
  | keyNotProjected
deriving DecidableEq

/-- The refusal of a statement. -/
def CompileError.diagnostic : CompileError → Diagnostic
  | .noCore =>
    { reason := .simple "SELECT statement has no core"
      hints := ["add a core with projections and a source"]
      code := some "E0001" }
  | .keyNotProjected =>
    { reason := .bug (some "primary key select without a column projection") }

/-- A result with everything that was said on the way to it. -/
structure Trace (α : Type) where
  log : List Message
  result : Except CompileError α

namespace Trace

variable {α β : Type}

/-- The second computation goes on from the result of the first; it is not run after a failure. -/
def bind (t : Trace α) (f : α → Trace β) : Trace β :=
  match t.result with
  | .ok a => ⟨t.log ++ (f a).log, (f a).result⟩
  | .error e => ⟨t.log, .error e⟩

instance : Monad Trace where
  pure a := ⟨[], .ok a⟩
  bind := bind

/-- After a failure nothing more is said. -/
theorem bind_error {t : Trace α} {e : CompileError} (h : t.result = .error e) (f : α → Trace β) :
    t >>= f = ⟨t.log, .error e⟩ := by
  show bind t f = _
  simp [bind, h]

/-- After a success the two logs follow each other. -/
theorem bind_ok {t : Trace α} {a : α} (h : t.result = .ok a) (f : α → Trace β) :
    t >>= f = ⟨t.log ++ (f a).log, (f a).result⟩ := by
  show bind t f = _
  simp [bind, h]

instance : LawfulMonad Trace :=
  LawfulMonad.mk' Trace
    (fun t => by
      obtain ⟨log, result⟩ := t
      cases result <;> simp [Functor.map, bind])
    (fun a f => rfl)
    (fun t f g => by
      obtain ⟨log, result⟩ := t
      cases result with
      | error e => rfl
      | ok a =>
        show bind (bind ⟨log, .ok a⟩ f) g = bind ⟨log, .ok a⟩ fun a => bind (f a) g
        cases h : (f a).result <;> simp [bind, h])

/-- Says something. -/
def say (m : Message) : Trace Unit := ⟨[m], .ok ()⟩

/-- Says several things. -/
def sayAll (ms : List Message) : Trace Unit := ⟨ms, .ok ()⟩

/-- Fails. -/
def fail (e : CompileError) : Trace α := ⟨[], .error e⟩

/-- The different messages, in the order of their characters. -/
def messages (t : Trace α) : List String :=
  (t.log.map Message.text).mergeSort.eraseDups

end Trace

end Transact
