import Transact.Codec.Encode
import Transact.Proofs.Json.Doubles
import Transact.Proofs.Select

/-!
# The doubles of a statement

The doubles of a statement are its constants of that type, in its subqueries as well. They can be
replaced, in the statement or in its JSON form. Main statement:

* `Statement.encode_mapFloats`: it does not matter whether the doubles are replaced before or after
  encoding.
-/

set_option autoImplicit false

namespace Transact

open Json Number

/-! ## Replaced doubles -/

section

variable {σ : Type} (f : Binary64 → Binary64)

/-- The constant with its double replaced. -/
def Literal.mapFloats : Literal → Literal
  | .float x => .float (f x)
  | v => v

namespace Expr

mutual

/-- The expression with its doubles replaced, subqueries excepted. -/
def mapFloats : Expr σ → Expr σ
  | .column c => .column c
  | .wildcard table => .wildcard table
  | .literal v => .literal (v.mapFloats f)
  | .typed v ty => .typed (v.mapFloats f) ty
  | .aggregate fn args d => .aggregate fn (mapFloatsList args) d
  | .call name args => .call name (mapFloatsList args)
  | .alias e name => .alias (mapFloats e) name
  | .distinct e => .distinct (mapFloats e)
  | .binary l op r => .binary (mapFloats l) op (mapFloats r)
  | .not e => .not (mapFloats e)
  | .isNull e n => .isNull (mapFloats e) n
  | .inList e list n => .inList (mapFloats e) (mapFloatsList list) n
  | .inSubquery e q n => .inSubquery (mapFloats e) q n
  | .grouping e => .grouping (mapFloats e)
  | .caseSensitive e => .caseSensitive (mapFloats e)
  | .raw s => .raw s

/-- The expressions with their doubles replaced. -/
def mapFloatsList : List (Expr σ) → List (Expr σ)
  | [] => []
  | e :: es => mapFloats e :: mapFloatsList es

end

end Expr

/-- The key with its doubles replaced. -/
def SortKey.mapFloats (k : SortKey σ) : SortKey σ := { k with expr := k.expr.mapFloats f }

/-- The source with the doubles of its conditions replaced. -/
def Source.mapFloats : Source σ → Source σ
  | .table t => .table t
  | .join kind left right condition =>
    .join kind (mapFloats left) (mapFloats right) (condition.map (Expr.mapFloats f))
  | .raw text => .raw text

/-- The core with its doubles replaced. -/
def Core.mapFloats (c : Core σ) : Core σ where
  projections := Expr.mapFloatsList f c.projections
  source := c.source.map (Source.mapFloats f)
  wheres := Expr.mapFloatsList f c.wheres
  groups := Expr.mapFloatsList f c.groups
  having := c.having.map (Expr.mapFloats f)
  distinct := c.distinct

/-- The level with its doubles replaced. -/
def SelectBody.mapFloats (s : SelectBody σ) : SelectBody σ where
  cores := s.cores.map (Core.mapFloats f)
  orders := s.orders.map (SortKey.mapFloats f)
  limit := s.limit.map (Expr.mapFloats f)
  offset := s.offset.map (Expr.mapFloats f)
  lock := s.lock

end

section

variable (f : Binary64 → Binary64)

/-- The select above subqueries whose doubles are replaced already. -/
def SelectBody.replaced (s : SelectBody Select) : Select := .of (s.mapFloats f)

/-- The select with its doubles replaced. -/
def Select.mapFloats (s : Select) : Select := s.fold (SelectBody.replaced f)

/-- The expression of a statement with its doubles replaced, those in its subqueries as well. -/
def Expr.mapAllFloats (e : Expr Select) : Expr Select := (e.map (Select.mapFloats f)).mapFloats f

/-- The update with its doubles replaced. -/
def Update.mapFloats (u : Update) : Update where
  table := u.table
  values := u.values.map fun v => (v.1, v.2.mapAllFloats f)
  wheres := u.wheres.map (Expr.mapAllFloats f)
  orders := u.orders.map fun k => { k with expr := k.expr.mapAllFloats f }
  limit := u.limit.map (Expr.mapAllFloats f)
  key := u.key

/-- The statement with its doubles replaced. -/
def Statement.mapFloats : Statement → Statement
  | .select s => .select (s.mapFloats f)
  | .update u => .update (u.mapFloats f)

end

/-! ## Encoding -/

section

variable {f : Binary64 → Binary64}

@[simp] theorem Json.mapFloats_variant (name : String) (payload : Json) :
    (Json.variant name payload).mapFloats f = .variant name (payload.mapFloats f) := rfl

theorem Json.mapFloats_ofOption {α : Type} {g : α → Json} {h : α → α}
    (hg : ∀ a, (g a).mapFloats f = g (h a)) (o : Option α) :
    (Json.ofOption g o).mapFloats f = .ofOption g (o.map h) := by
  cases o with
  | none => rfl
  | some a => exact hg a

@[simp] theorem Json.mapFloats_ofOption_string (o : Option String) :
    (Json.ofOption .string o).mapFloats f = .ofOption .string o := by
  cases o <;> rfl

@[simp] theorem ColumnRef.mapFloats_encode (c : ColumnRef) : c.encode.mapFloats f = c.encode := by
  simp [encode]

@[simp] theorem TableRef.mapFloats_encode (t : TableRef) : t.encode.mapFloats f = t.encode := by
  simp [encode, mapFloatsItems_eq, Function.comp_def]

@[simp] theorem Lock.mapFloats_encode (l : Lock) : l.encode.mapFloats f = l.encode := by
  cases l <;> simp [encode]

@[simp] theorem Literal.encode_mapFloats (v : Literal) :
    (v.mapFloats f).encode = v.encode.mapFloats f := by
  cases v with
  | binary bytes => simp [Literal.mapFloats, encode, mapFloatsItems_eq, Function.comp_def]
  | null | boolean _ | integer _ | float _ | string _ | date _ | dateTime _ | time _ =>
    simp [Literal.mapFloats, encode]

namespace Select

mutual

theorem encode_fold : ∀ s : Select,
    (s.fold (SelectBody.replaced f)).fold SelectBody.encode =
      (s.fold SelectBody.encode).mapFloats f
  | .of ⟨cores, orders, limit, offset, lock⟩ => by
    simp [fold, SelectBody.replaced, SelectBody.mapFloats, SelectBody.encode,
      encode_foldCores cores, encode_foldKeys orders, encode_foldOption limit,
      encode_foldOption offset, Json.mapFloats_ofOption (h := id) Lock.mapFloats_encode]

theorem encode_foldCores : ∀ cs : List (Core Select),
    (foldCores SelectBody.encode ((foldCores (SelectBody.replaced f) cs).map
      (Core.mapFloats f))).map Core.encode =
        mapFloatsItems f ((foldCores SelectBody.encode cs).map Core.encode)
  | [] => rfl
  | ⟨projections, source, wheres, groups, having, distinct⟩ :: cs => by
    have hquantifier : (if distinct then Json.string "Distinct" else .null).mapFloats f =
        if distinct then .string "Distinct" else .null := by
      cases distinct <;> rfl
    simp [foldCores, Core.mapFloats, Core.encode, encode_foldList projections,
      encode_foldSourceOption source, encode_foldList wheres, encode_foldList groups,
      encode_foldOption having, hquantifier, encode_foldCores cs]

theorem encode_foldKeys : ∀ ks : List (SortKey Select),
    (foldKeys SelectBody.encode ((foldKeys (SelectBody.replaced f) ks).map
      (SortKey.mapFloats f))).map SortKey.encode =
        mapFloatsItems f ((foldKeys SelectBody.encode ks).map SortKey.encode)
  | [] => rfl
  | ⟨e, direction⟩ :: ks => by
    simp [foldKeys, SortKey.mapFloats, SortKey.encode, encode_foldExpr e, encode_foldKeys ks]

theorem encode_foldSourceOption : ∀ s : Option (Source Select),
    Json.ofOption Source.encode (foldSourceOption SelectBody.encode
      ((foldSourceOption (SelectBody.replaced f) s).map (Source.mapFloats f))) =
        (Json.ofOption Source.encode (foldSourceOption SelectBody.encode s)).mapFloats f
  | none => rfl
  | some s => encode_foldSource s

theorem encode_foldSource : ∀ s : Source Select,
    (foldSource SelectBody.encode
      ((foldSource (SelectBody.replaced f) s).mapFloats f)).encode =
        (foldSource SelectBody.encode s).encode.mapFloats f
  | .table t => by simp [foldSource, Source.mapFloats, Source.encode]
  | .join kind left right condition => by
    simp [foldSource, Source.mapFloats, Source.encode, encode_foldSource left,
      encode_foldSource right, encode_foldOption condition]
  | .raw _ => rfl

theorem encode_foldOption : ∀ e : Option (Expr Select),
    Json.ofOption Expr.encode (foldOption SelectBody.encode
      ((foldOption (SelectBody.replaced f) e).map (Expr.mapFloats f))) =
        (Json.ofOption Expr.encode (foldOption SelectBody.encode e)).mapFloats f
  | none => rfl
  | some e => encode_foldExpr e

theorem encode_foldList : ∀ es : List (Expr Select),
    Expr.encodeList (foldList SelectBody.encode
      (Expr.mapFloatsList f (foldList (SelectBody.replaced f) es))) =
        mapFloatsItems f (Expr.encodeList (foldList SelectBody.encode es))
  | [] => rfl
  | e :: es => by
    simp [foldList, Expr.mapFloatsList, Expr.encodeList, encode_foldExpr e, encode_foldList es]

theorem encode_foldExpr : ∀ e : Expr Select,
    (foldExpr SelectBody.encode
      ((foldExpr (SelectBody.replaced f) e).mapFloats f)).encode =
        (foldExpr SelectBody.encode e).encode.mapFloats f
  | .column c => by simp [foldExpr, Expr.mapFloats, Expr.encode]
  | .wildcard table => by simp [foldExpr, Expr.mapFloats, Expr.encode]
  | .literal v => by simp [foldExpr, Expr.mapFloats, Expr.encode]
  | .typed v _ => by simp [foldExpr, Expr.mapFloats, Expr.encode]
  | .aggregate _ args _ | .call _ args => by
    simp [foldExpr, Expr.mapFloats, Expr.encode, encode_foldList args]
  | .alias e _ | .distinct e | .not e | .isNull e _ | .grouping e | .caseSensitive e => by
    simp [foldExpr, Expr.mapFloats, Expr.encode, encode_foldExpr e]
  | .binary l _ r => by
    simp [foldExpr, Expr.mapFloats, Expr.encode, encode_foldExpr l, encode_foldExpr r]
  | .inList e es _ => by
    simp [foldExpr, Expr.mapFloats, Expr.encode, encode_foldExpr e, encode_foldList es]
  | .inSubquery e q _ => by
    simp [foldExpr, Expr.mapFloats, Expr.encode, encode_foldExpr e, encode_fold q]
  | .raw _ => rfl

end

end Select

theorem Expr.toJson_mapAllFloats (e : Expr Select) :
    (e.mapAllFloats f).toJson = e.toJson.mapFloats f := by
  have h := Select.encode_foldExpr (f := f) e
  rwa [Select.foldExpr_eq, Select.foldExpr_eq, Select.foldExpr_eq] at h

theorem Update.encode_mapFloats (u : Update) : (u.mapFloats f).encode = u.encode.mapFloats f := by
  have hkey : ∀ k : SortKey Select,
      SortKey.toJson { k with expr := k.expr.mapAllFloats f } = k.toJson.mapFloats f := by
    intro k
    have h := k.expr.toJson_mapAllFloats (f := f)
    simp only [Expr.toJson] at h
    simp [SortKey.toJson, SortKey.map, SortKey.encode, h]
  have hlimit :=
    Json.mapFloats_ofOption (fun e => (Expr.toJson_mapAllFloats (f := f) e).symm) u.limit
  have hcolumn := Json.mapFloats_ofOption (f := f) (h := id) ColumnRef.mapFloats_encode u.key
  simp [encode, mapFloats, mapFloatsItems_eq, Function.comp_def, Expr.toJson_mapAllFloats, hkey,
    hlimit, hcolumn]

/-- **Doubles are replaced** before or after encoding with the same result. -/
theorem Statement.encode_mapFloats (s : Statement) :
    (s.mapFloats f).encode = s.encode.mapFloats f := by
  cases s with
  | select s => exact congrArg (Json.variant "Select") (Select.encode_fold s)
  | update u => exact congrArg (Json.variant "Update") u.encode_mapFloats

end

/-! ## Doubles read again -/

namespace Statement

/-- The doubles of a statement: those in its JSON form, where they stand for its constants of that
type. -/
def floats (s : Statement) : List Binary64 := s.encode.floats

/-- The statement with each of its doubles read from its own text. -/
def reread (s : Statement) : Statement := s.mapFloats Binary64.reread

theorem encode_reread (s : Statement) :
    s.reread.encode = s.encode.mapFloats Binary64.reread := s.encode_mapFloats

end Statement

end Transact
