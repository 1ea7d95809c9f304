import Transact.Json.Basic
import Transact.Number.Clamp
import Transact.Calendar.Reader
import Transact.Text.Quotation

/-!
# Decoding JSON values

A decoder turns a JSON value into something of the library, or says why it cannot. It is told how
many more brackets may be opened; every array and object that it looks into takes one, and values
that nobody looks at take none.
-/

set_option autoImplicit false

namespace Transact.Json

open Text Number

/-! ## Errors -/

/-- Why a JSON value does not denote what was asked for. -/
inductive DecodeError where
  /-- not JSON, too deeply nested, or of a shape that no value of the type has -/
  | malformed
  | missingField (name : String)
  | duplicateField (name : String)
  | unknownVariant (found : String) (known : List String)
  | wrongType (found expected : String)
  | wrongValue (found : Int) (expected : String)
  | wrongLength (found : Nat) (expected : String)
  | calendar (fault : Calendar.Fault)
deriving DecidableEq

/-- A name between backquotes. -/
def backquoted (s : String) : String := "`" ++ s ++ "`"

/-- The names that would have been accepted. -/
def alternatives : List String → String
  | [] => "there are no variants"
  | [a] => "expected " ++ backquoted a
  | [a, b] => "expected " ++ backquoted a ++ " or " ++ backquoted b
  | names => "expected one of " ++ join ", " (names.map backquoted)

/-- The wording of an error. A malformed text has none. -/
def DecodeError.message? : DecodeError → Option String
  | .malformed => none
  | .missingField name => some ("missing field " ++ backquoted name)
  | .duplicateField name => some ("duplicate field " ++ backquoted name)
  | .unknownVariant found known =>
    some ("unknown variant " ++ backquoted found ++ ", " ++ alternatives known)
  | .wrongType found expected => some ("invalid type: " ++ found ++ ", expected " ++ expected)
  | .wrongValue found expected =>
    some ("invalid value: integer " ++ backquoted (Text.integer found) ++ ", expected " ++ expected)
  | .wrongLength found expected =>
    some ("invalid length " ++ Text.natural found ++ ", expected " ++ expected)
  | .calendar fault => some fault.message

/-- What a value is, in an error. -/
def described : Json → String
  | .null => "null"
  | .bool true => "boolean " ++ backquoted "true"
  | .bool false => "boolean " ++ backquoted "false"
  | .integer i => "integer " ++ backquoted (Text.integer i)
  | .float x => "floating point " ++ backquoted (floatStyle.render x)
  | .unreadable => "unreadable"
  | .string s => "string " ++ quotation s
  | .array _ => "sequence"
  | .object _ => "map"

/-- The error for a value that is not what was expected. -/
def mismatch (found : Json) (expected : String) : DecodeError :=
  match found with
  | .unreadable => .malformed
  | _ => .wrongType found.described expected

/-! ## Decoders of single values -/

/-- A decoder of `α`. The number is how many more brackets may be opened. -/
def Decoder (α : Type) := Nat → Json → Except DecodeError α

namespace Decoder

variable {α β : Type}

/-- Decodes by `d`, then applies `f`. -/
def map (f : α → β) (d : Decoder α) : Decoder β := fun room j => (d room j).map f

/-- No value is accepted. -/
def fail : Decoder α := fun _ _ => .error .malformed

/-- A text. -/
def string : Decoder String
  | _, .string s => .ok s
  | _, j => .error (mismatch j "a string")

/-- A truth value. -/
def bool : Decoder Bool
  | _, .bool b => .ok b
  | _, j => .error (mismatch j "a boolean")

/-- An integer between two bounds. -/
def boundedInteger (least greatest : Int) (expected : String) : Decoder Int
  | _, .integer i =>
    if least ≤ i && i ≤ greatest then .ok i else .error (.wrongValue i expected)
  | _, j => .error (mismatch j expected)

/-- A signed 64-bit integer. -/
def int64 : Decoder Int64 :=
  (boundedInteger minInt64 maxInt64 "i64").map Int64.ofInt

/-- A byte. -/
def byte : Decoder UInt8 := (boundedInteger 0 255 "u8").map fun i => UInt8.ofNat i.toNat

/-- A double; integers stand for the double nearest to them. -/
def float : Decoder Binary64
  | _, .integer i => .ok (.ofInt i)
  | _, .float x => .ok x
  | _, j => .error (mismatch j "f64")

/-- A text that `read` understands. -/
def reading (read : String → Except Calendar.Fault α) (expected : String) : Decoder α
  | _, .string s =>
    match read s with
    | .ok a => .ok a
    | .error fault => .error (.calendar fault)
  | _, j => .error (mismatch j expected)

/-- `null` or a value. -/
def nullable (d : Decoder α) : Decoder (Option α)
  | _, .null => .ok none
  | room, j => (d room j).map some

/-- The array of values that `d` accepts. -/
def list (d : Decoder α) : Decoder (List α)
  | 0, .array _ => .error .malformed
  | room + 1, .array items => items.mapM (d room)
  | _, j => .error (mismatch j "a sequence")

/-- An array of exactly two values. -/
def pair (a : Decoder α) (b : Decoder β) : Decoder (α × β)
  | 0, .array _ => .error .malformed
  | room + 1, .array items =>
    match items with
    | [] => .error (.wrongLength 0 "a tuple of size 2")
    | [x] => do
      let _ ← a room x
      .error (.wrongLength 1 "a tuple of size 2")
    | x :: y :: rest => do
      let x ← a room x
      let y ← b room y
      if rest.isEmpty then .ok (x, y) else .error .malformed
  | _, j => .error (mismatch j "a tuple of size 2")

/-! ## Variants -/

/-- What a variant of a type carries. -/
inductive Payload (α : Type) where
  /-- nothing -/
  | empty (a : α)
  /-- one value -/
  | single (d : Decoder α)
  /-- named fields -/
  | fields (d : Decoder α)

/-- The value of a variant that is given by its name alone. -/
def Payload.bare : Payload α → Except DecodeError α
  | .empty a => .ok a
  | .single _ => .error (.wrongType "unit variant" "newtype variant")
  | .fields _ => .error (.wrongType "unit variant" "struct variant")

/-- The value of a variant that is given with a payload. -/
def Payload.decode : Payload α → Decoder α
  | .empty a, _, .null => .ok a
  | .empty _, _, j => .error (mismatch j "unit")
  | .single d, room, j => d room j
  | .fields d, room, j => d room j

/-- A value of a type with named variants: the name of a variant without a payload, or an object
whose only field is named for the variant and holds the payload. -/
def variants (cases : List (String × Payload α)) : Decoder α := fun room j =>
  let find (name : String) : Except DecodeError (Payload α) :=
    match cases.lookup name with
    | some payload => .ok payload
    | none => .error (.unknownVariant name (cases.map (·.1)))
  match room, j with
  | _, .string name => do (← find name).bare
  | room + 1, .object ((name, value) :: rest) => do
    let a ← (← find name).decode room value
    if rest.isEmpty then .ok a else .error .malformed
  | _, _ => .error .malformed

/-- A value of a type whose variants carry nothing. -/
def named (name : α → String) (values : List α) : Decoder α :=
  variants (values.map fun a => (name a, .empty a))

end Decoder

/-! ## Records -/

/-- The fields of a record: by name, or in the order of their declaration. -/
inductive Fields where
  | byName (fields : List (String × Json))
  | inOrder (items : List Json)

/-- Errors of a record, each with the place in the text where it shows. -/
abbrev Placed := List (Nat × DecodeError)

/-- Reads some fields of a record. `read room label fields index` decodes the fields that are
declared from place `index` on; `label` names the whole record, for the error of an array that is
too short. All errors are collected, and the first in the order of the text is reported in the
end. -/
structure Record (α : Type) where
  size : Nat
  read : Nat → String → Fields → Nat → Except Placed α

namespace Record

variable {α β : Type}

instance : Applicative Record where
  pure a := ⟨0, fun _ _ _ _ => .ok a⟩
  seq f x :=
    { size := f.size + (x ()).size
      read := fun room label fields index =>
        match f.read room label fields index, (x ()).read room label fields (index + f.size) with
        | .ok g, .ok a => .ok (g a)
        | .ok _, .error errors => .error errors
        | .error errors, .ok _ => .error errors
        | .error errors, .error more => .error (errors ++ more) }

/-- The places and values at which a field of this name stands. -/
def occurrences (name : String) (fields : List (String × Json)) : List (Nat × Json) :=
  fields.zipIdx.filterMap fun ((key, value), place) =>
    if key = name then some (place, value) else none

/-- Decodes the value at a place. -/
def decodeAt (d : Decoder α) (room place : Nat) (j : Json) : Except Placed α :=
  match d room j with
  | .ok a => .ok a
  | .error e => .error [(place, e)]

/-- One field. `absent` is its value when an object does not have it. -/
def slot (name : String) (d : Decoder α) (absent : Option α) : Record α where
  size := 1
  read room label fields index :=
    match fields with
    | .byName fields =>
      match occurrences name fields with
      | [] =>
        match absent with
        | some a => .ok a
        | none => .error [(fields.length + index, .missingField name)]
      | [(place, j)] => decodeAt d room place j
      | (place, j) :: (again, _) :: _ =>
        match decodeAt d room place j with
        | .ok _ => .error [(again, .duplicateField name)]
        | .error errors => .error errors
    | .inOrder items =>
      match items[index]? with
      | some j => decodeAt d room index j
      | none => .error [(items.length, .wrongLength items.length label)]

/-- A field that every record has. -/
def field (name : String) (d : Decoder α) : Record α := slot name d none

/-- A field that may be `null`, or absent from an object. -/
def optional (name : String) (d : Decoder α) : Record (Option α) :=
  slot name d.nullable (some none)

/-- The error that stands first in the text. -/
def first : Placed → DecodeError
  | [] => .malformed
  | (place, e) :: rest =>
    (rest.foldl (fun best next => if next.1 < best.1 then next else best) (place, e)).2

/-- The first of the errors. -/
def settle (result : Except Placed α) : Except DecodeError α :=
  match result with
  | .ok a => .ok a
  | .error errors => .error (first errors)

/-- The name of a record together with its number of fields. -/
def label (what : String) (size : Nat) : String :=
  what ++ " with " ++ Text.natural size ++ (if size = 1 then " element" else " elements")

/-- A record is an object of its fields in any order, other fields ignored, or an array of exactly
its fields in the order of their declaration. -/
def decoder (what : String) (r : Record α) : Decoder α := fun room j =>
  match room, j with
  | 0, .object _ => .error .malformed
  | 0, .array _ => .error .malformed
  | room + 1, .object fields => settle (r.read room (label what r.size) (.byName fields) 0)
  | room + 1, .array items => do
    let a ← settle (r.read room (label what r.size) (.inOrder items) 0)
    if items.length ≤ r.size then .ok a else .error .malformed
  | _, j => .error (mismatch j what)

end Record

end Transact.Json
