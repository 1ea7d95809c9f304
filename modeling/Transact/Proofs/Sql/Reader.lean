import Transact.Expr.Basic
import Transact.Proofs.Sql.Condition
import Transact.Proofs.Sql.Token

/-!
# Conditions read back

A comparison stands between `AND`s, `OR`s, `NOT`s and parentheses. `Reader` takes the tokens of a
condition one by one and keeps what stands before every parenthesis that is open.

* `Operand.ofTokens?_tokens`, `Comparison.ofTokens?_tokens`: operands and comparisons are read back.
* `Reader.run?_tokens`: the tokens of a condition are read as `Context.absorb` says, after anything
  and before anything that ends a factor.
-/

set_option autoImplicit false

namespace Transact

/-! ## Comparisons -/

/-- The names that a column is written with. -/
def ColumnRef.path (c : ColumnRef) : List String :=
  c.table.elim [] (fun table => (Text.split '.' table.toList).map String.ofList) ++ [c.name]

/-- The column that is written with these names. -/
def ColumnRef.ofPath (names : List String) : ColumnRef :=
  ⟨if names.dropLast.isEmpty then none else some (Text.join "." names.dropLast),
    names.getLast?.getD ""⟩

namespace Sql

open Text

/-- What a comparison compares: columns, and constants that can be read back. -/
inductive Operand where
  | column (c : ColumnRef)
  | null
  | integer (i : Int64)
  | text (s : { s : String // ApostrophesAlone s })
deriving DecidableEq

/-- The operators of comparisons. -/
inductive Comparator where
  | eq
  | notEq
  | lt
  | lte
  | gt
  | gte
deriving DecidableEq

/-- The comparison of two operands. -/
structure Comparison where
  left : Operand
  comparator : Comparator
  right : Operand
deriving DecidableEq

namespace Comparator

def all : List Comparator := [.eq, .notEq, .lt, .lte, .gt, .gte]

/-- The operator of an expression. -/
def op : Comparator → BinaryOp
  | .eq => .eq
  | .notEq => .notEq
  | .lt => .lt
  | .lte => .lte
  | .gt => .gt
  | .gte => .gte

/-- The comparator that a token stands for. -/
def ofToken? : Token → Option Comparator
  | .sign s => all.find? (·.op.keyword == s)
  | _ => none

theorem ofToken?_sign (o : Comparator) : ofToken? (.sign o.op.keyword) = some o := by
  cases o <;> decide

end Comparator

/-! ## Tokens -/

namespace Operand

def tokens : Operand → List Token
  | .column c => pathTokens c.path
  | .null => [.word "NULL"]
  | .integer i => integerTokens i.toInt
  | .text s => [.text s.1]

/-- The operand that tokens stand for. -/
def ofTokens? : List Token → Option Operand
  | [.text s] => if h : ApostrophesAlone s then some (.text ⟨s, h⟩) else none
  | .name s :: ts => (path? (.name s :: ts)).map (.column ∘ ColumnRef.ofPath)
  | ts => if ts = [.word "NULL"] then some .null else (integer? ts).map (.integer ∘ Int64.ofInt)

end Operand

namespace Comparison

def tokens (a : Comparison) : List Token :=
  a.left.tokens ++ .sign a.comparator.op.keyword :: a.right.tokens

/-- The tokens around the first comparator. -/
def split? : List Token → Option (List Token × Comparator × List Token)
  | [] => none
  | t :: ts =>
    match Comparator.ofToken? t with
    | some o => some ([], o, ts)
    | none => (split? ts).map fun (left, o, right) => (t :: left, o, right)

/-- The comparison that tokens stand for. -/
def ofTokens? (ts : List Token) : Option Comparison := do
  let (left, o, right) ← split? ts
  let left ← Operand.ofTokens? left
  let right ← Operand.ofTokens? right
  pure ⟨left, o, right⟩

end Comparison

/-- The tokens of a condition. -/
def Condition.tokens : Condition Comparison → List Token
  | .compare a => a.tokens
  | .and l r => tokens l ++ .word "AND" :: tokens r
  | .or l r => tokens l ++ .word "OR" :: tokens r
  | .not c => .word "NOT" :: .lparen :: tokens c ++ [.rparen]
  | .group c => .lparen :: tokens c ++ [.rparen]

/-! ## Reading -/

/-- What a token does in a condition. -/
inductive Role where
  | and
  | or
  | not
  | lparen
  | rparen
  | part
deriving DecidableEq

def Token.role : Token → Role
  | .word "AND" => .and
  | .word "OR" => .or
  | .word "NOT" => .not
  | .lparen => .lparen
  | .rparen => .rparen
  | _ => .part

/-- How far a condition has been read. -/
inductive Position where
  /-- a factor comes next, with so many `NOT`s before it -/
  | expecting (k : Context Comparison) (negations : Nat)
  /-- tokens of a comparison have been read -/
  | comparing (k : Context Comparison) (negations : Nat) (ts : List Token)
  | complete (r : Reading Comparison)

/-- The condition after so many `NOT`s. -/
def negated : Nat → Condition Comparison → Condition Comparison
  | 0, c => c
  | n + 1, c => .not (negated n c)

/-- What has been read when a factor ends here. -/
def Position.settle? : Position → Option (Reading Comparison)
  | .expecting _ _ => none
  | .comparing k n ts => (Comparison.ofTokens? ts).map fun a => k.add (negated n (.compare a))
  | .complete r => some r

/-- A reader of conditions: what stands before the parentheses that are open, and the position
inside of them. -/
structure Reader where
  outer : List (Context Comparison × Nat)
  position : Position

namespace Reader

/-- Reads a token. -/
def step? (rd : Reader) (t : Token) : Option Reader :=
  match t.role, rd.position with
  | .and, p => p.settle?.map fun r => ⟨rd.outer, .expecting r.and 0⟩
  | .or, p => p.settle?.map fun r => ⟨rd.outer, .expecting r.or 0⟩
  | .not, .expecting k n => some ⟨rd.outer, .expecting k (n + 1)⟩
  | .lparen, .expecting k n => some ⟨(k, n) :: rd.outer, .expecting {} 0⟩
  | .rparen, p =>
    match rd.outer with
    | [] => none
    | (k, n) :: outer =>
      p.settle?.map fun r => ⟨outer, .complete (k.add (negated n (.group r.condition)))⟩
  | .part, .expecting k n => some ⟨rd.outer, .comparing k n [t]⟩
  | .part, .comparing k n ts => some ⟨rd.outer, .comparing k n (ts ++ [t])⟩
  | _, _ => none

/-- Reads tokens to the end. -/
def run? : Reader → List Token → Option (Condition Comparison)
  | rd, [] => if rd.outer.isEmpty then rd.position.settle?.map (·.condition) else none
  | rd, t :: ts => (rd.step? t).bind (run? · ts)

end Reader

/-- The condition that a text is read as. -/
def condition? (text : String) : Option (Condition Comparison) :=
  Reader.run? ⟨[], .expecting {} 0⟩ (Sql.tokens text)

/-! ## Comparisons read back -/

/-- Pieces are put together to the text that they were cut from. -/
theorem toList_join_split : ∀ cs : List Char,
    (join "." ((split '.' cs).map String.ofList)).toList = cs
  | [] => rfl
  | c :: cs => by
    have ih := toList_join_split cs
    rw [split]
    cases hcs : split '.' cs with
    | nil => exact absurd hcs (split_ne_nil _ _)
    | cons piece pieces =>
      rw [hcs] at ih
      by_cases hc : c = '.'
      · rw [if_pos hc, List.map_cons, List.map_cons, join, ← List.map_cons, hc]
        simpa using ih
      · rw [if_neg hc]
        cases pieces with
        | nil => simpa [join] using ih
        | cons next rest => simpa [join] using ih

theorem ofPath_path (c : ColumnRef) : ColumnRef.ofPath c.path = c := by
  obtain ⟨table, name⟩ := c
  cases table with
  | none => rfl
  | some table =>
    have hjoin : join "." ((split '.' table.toList).map String.ofList) = table :=
      String.toList_inj.1 (toList_join_split _)
    simp [ColumnRef.ofPath, ColumnRef.path, hjoin, split_ne_nil]

theorem role_natural (n : Nat) : (Token.word (natural n)).role = .part := by
  unfold Token.role
  split <;> rename_i h
  · exact absurd (Token.word.inj h) (natural_ne (by decide))
  · exact absurd (Token.word.inj h) (natural_ne (by decide))
  · exact absurd (Token.word.inj h) (natural_ne (by decide))
  · cases h
  · cases h
  · rfl

/-- The tokens of operands are neither connectives nor comparators. -/
theorem Operand.mem_tokens {o : Operand} {t : Token} (h : t ∈ o.tokens) :
    t.role = .part ∧ Comparator.ofToken? t = none := by
  have hpath : ∀ ss : List String, t ∈ pathTokens ss →
      t.role = .part ∧ Comparator.ofToken? t = none := by
    intro ss
    fun_induction pathTokens ss with
    | case1 => simp
    | case2 s =>
      intro ht
      rw [List.mem_singleton.1 ht]
      exact ⟨rfl, rfl⟩
    | case3 s s' rest ih =>
      intro ht
      rcases List.mem_cons.1 ht with rfl | ht
      · exact ⟨rfl, rfl⟩
      · rcases List.mem_cons.1 ht with rfl | ht
        · exact ⟨rfl, rfl⟩
        · exact ih ht
  cases o with
  | column c => exact hpath _ h
  | null =>
    rw [List.mem_singleton.1 h]
    exact ⟨rfl, rfl⟩
  | text s =>
    rw [List.mem_singleton.1 h]
    exact ⟨rfl, rfl⟩
  | integer i =>
    rw [tokens] at h
    cases hi : i.toInt with
    | ofNat n =>
      rw [hi] at h
      rw [List.mem_singleton.1 h]
      exact ⟨role_natural n, rfl⟩
    | negSucc n =>
      rw [hi] at h
      rcases List.mem_cons.1 h with rfl | h
      · exact ⟨rfl, by decide⟩
      · rw [List.mem_singleton.1 h]
        exact ⟨role_natural _, rfl⟩

/-- Operands are read back. -/
theorem Operand.ofTokens?_tokens (o : Operand) : ofTokens? o.tokens = some o := by
  cases o with
  | null => rfl
  | text s =>
    rw [tokens, ofTokens?, dif_pos s.2]
  | column c =>
    have hne : c.path ≠ [] := by simp [ColumnRef.path]
    have hread := path?_pathTokens hne
    obtain ⟨s, ss, hss⟩ := List.exists_cons_of_ne_nil hne
    obtain ⟨ts, hts⟩ : ∃ ts, pathTokens c.path = .name s :: ts := by
      rw [hss]
      cases ss with
      | nil => exact ⟨_, rfl⟩
      | cons s' ss => exact ⟨_, rfl⟩
    rw [tokens]
    rw [hts] at hread ⊢
    rw [ofTokens?, hread, Option.map_some, Function.comp_apply, ofPath_path]
  | integer i =>
    have hne : integerTokens i.toInt ≠ [.word "NULL"] := by
      cases i.toInt with
      | ofNat n =>
        intro h
        exact natural_ne (by decide) (Token.word.inj (List.cons.inj h).1)
      | negSucc n => simp [integerTokens]
    have hcase : ofTokens? (integerTokens i.toInt) =
        if integerTokens i.toInt = [.word "NULL"] then some .null
        else (integer? (integerTokens i.toInt)).map (.integer ∘ Int64.ofInt) := by
      cases i.toInt <;> rfl
    rw [tokens, hcase, if_neg hne, integer?_integerTokens, Option.map_some, Function.comp_apply,
      Int64.ofInt_toInt]

theorem Comparison.split?_append {left : List Token} (h : ∀ t ∈ left, Comparator.ofToken? t = none)
    (o : Comparator) (right : List Token) :
    split? (left ++ .sign o.op.keyword :: right) = some (left, o, right) := by
  induction left with
  | nil => rw [List.nil_append, split?, o.ofToken?_sign]
  | cons t left ih =>
    rw [List.cons_append, split?, h t List.mem_cons_self,
      ih fun t ht => h t (List.mem_cons_of_mem _ ht)]
    rfl

/-- Comparisons are read back. -/
theorem Comparison.ofTokens?_tokens (a : Comparison) : ofTokens? a.tokens = some a := by
  rw [ofTokens?, tokens, split?_append fun t ht => (Operand.mem_tokens ht).2]
  simp [Operand.ofTokens?_tokens]

theorem Comparison.role_of_mem_tokens {a : Comparison} {t : Token} (h : t ∈ a.tokens) :
    t.role = .part := by
  rw [tokens, List.mem_append, List.mem_cons] at h
  rcases h with h | rfl | h
  · exact (Operand.mem_tokens h).1
  · cases a.comparator <;> rfl
  · exact (Operand.mem_tokens h).1

/-! ## Conditions read back -/

namespace Reader

/-- A factor ends before these tokens. -/
def Settles (rest : List Token) : Prop :=
  ∀ t ∈ rest.head?, t.role = .and ∨ t.role = .or ∨ t.role = .rparen

theorem settles_cons {t : Token} (h : t.role = .and ∨ t.role = .or ∨ t.role = .rparen)
    (ts : List Token) : Settles (t :: ts) := by
  intro t' ht'
  rw [← Option.some.inj ht']
  exact h

variable (outer : List (Context Comparison × Nat)) (k : Context Comparison)

theorem run?_settle {p : Position} {r : Reading Comparison} (h : p.settle? = some r)
    {rest : List Token} (hrest : Settles rest) :
    run? ⟨outer, p⟩ rest = run? ⟨outer, .complete r⟩ rest := by
  have hr : (Position.complete r).settle? = some r := rfl
  cases rest with
  | nil => simp only [run?, h, hr]
  | cons t ts =>
    have hstep : step? ⟨outer, p⟩ t = step? ⟨outer, .complete r⟩ t := by
      rcases hrest t rfl with ht | ht | ht <;> simp only [step?, ht, h, hr]
    rw [run?, run?, hstep]

theorem run?_parts (n : Nat) (rest : List Token) : ∀ {ts' : List Token} (ts : List Token),
    (∀ t ∈ ts', t.role = .part) →
      run? ⟨outer, .comparing k n ts⟩ (ts' ++ rest) = run? ⟨outer, .comparing k n (ts ++ ts')⟩ rest
  | [], ts, _ => by rw [List.nil_append, List.append_nil]
  | t :: ts', ts, h => by
    have ih := run?_parts n rest (ts ++ [t]) fun t ht => h t (List.mem_cons_of_mem _ ht)
    rw [List.append_assoc, List.singleton_append] at ih
    rw [List.cons_append, run?, step?, h t List.mem_cons_self]
    exact ih

theorem run?_comparison (a : Comparison) {rest : List Token} (hrest : Settles rest) :
    run? ⟨outer, .expecting k 0⟩ (a.tokens ++ rest) =
      run? ⟨outer, .complete (k.add (.compare a))⟩ rest := by
  have hrole : ∀ t ∈ a.tokens, t.role = .part := fun t => a.role_of_mem_tokens
  have hsettle : (Position.comparing k 0 a.tokens).settle? = some (k.add (.compare a)) := by
    rw [Position.settle?, a.ofTokens?_tokens]
    rfl
  obtain ⟨t, ts, hts⟩ : ∃ t ts, a.tokens = t :: ts :=
    List.exists_cons_of_ne_nil (by simp [Comparison.tokens])
  rw [hts] at hrole hsettle ⊢
  have hparts := run?_parts outer k 0 rest [t] fun t ht => hrole t (List.mem_cons_of_mem _ ht)
  rw [List.cons_append, run?, step?, hrole t List.mem_cons_self]
  exact hparts.trans (run?_settle outer hsettle hrest)

theorem run?_parens {c : Condition Comparison} {r : Reading Comparison} (n : Nat)
    {rest : List Token}
    (hc : run? ⟨(k, n) :: outer, .expecting {} 0⟩ (c.tokens ++ .rparen :: rest) =
      run? ⟨(k, n) :: outer, .complete r⟩ (.rparen :: rest)) :
    run? ⟨outer, .expecting k n⟩ (.lparen :: c.tokens ++ [.rparen] ++ rest) =
      run? ⟨outer, .complete (k.add (negated n (.group r.condition)))⟩ rest := by
  rw [List.append_assoc, List.singleton_append, List.cons_append, run?]
  exact hc

/-- **The tokens of a condition** are read as the condition is absorbed, after anything and before
anything that ends a factor. -/
theorem run?_tokens (c : Condition Comparison) {rest : List Token} (hrest : Settles rest) :
    run? ⟨outer, .expecting k 0⟩ (c.tokens ++ rest) =
      run? ⟨outer, .complete (k.absorb c)⟩ rest := by
  -- parentheses put `k` on the stack, and an operator changes it, so both are general
  induction c generalizing outer k rest with
  | compare a => exact run?_comparison outer k a hrest
  | and l r hl hr =>
    rw [Condition.tokens, List.append_assoc, List.cons_append,
      hl outer k (settles_cons (.inl rfl) _), run?]
    exact hr outer _ hrest
  | or l r hl hr =>
    rw [Condition.tokens, List.append_assoc, List.cons_append,
      hl outer k (settles_cons (.inr (.inl rfl)) _), run?]
    exact hr outer _ hrest
  | not c ih =>
    rw [Condition.tokens, List.cons_append, List.cons_append, run?]
    exact run?_parens outer k 1 (ih _ _ (settles_cons (.inr (.inr rfl)) _))
  | group c ih =>
    exact run?_parens outer k 0 (ih _ _ (settles_cons (.inr (.inr rfl)) _))

end Reader

/-- **The text of a condition** is read as `Condition.reread` says. -/
theorem condition?_of_reads {text : String} {c : Condition Comparison}
    (h : Reads text c.tokens) : condition? text = some c.reread := by
  have hrun := Reader.run?_tokens [] {} c (show Reader.Settles [] by simp [Reader.Settles])
  rw [List.append_nil] at hrun
  rw [condition?, h.tokens_eq, hrun]
  rfl

end Sql

end Transact
