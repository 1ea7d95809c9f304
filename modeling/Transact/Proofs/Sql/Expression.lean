import Transact.Proofs.Sql.Reader

/-!
# Reading expressions

`expression?` reads an expression from its text as the server does, operators by their precedence.
The text is taken apart into symbols, and the symbols are read by descent: an operand, then the
operators that follow it and bind at least as strongly as those around it.

* `Expr.isExplicit`: the parentheses of an expression say how its operators are nested.
* `Parser.reads_symbols`: an explicit expression is read back from its symbols, an operand whatever
  operator follows.
* `expression?_of_reads`: a text with the tokens of an explicit expression is read as it.
-/

set_option autoImplicit false

namespace Transact

namespace Sql

open Text

/-! ## Symbols -/

/-- The words of the grammar. They are no names, in any case of the letters. -/
inductive Keyword where
  | and
  | or
  | not
  | is
  | null
  | among
  | like
  | collate
  | distinct
deriving DecidableEq

namespace Keyword

def all : List Keyword := [.and, .or, .not, .is, .null, .among, .like, .collate, .distinct]

def text : Keyword → String
  | .and => "AND"
  | .or => "OR"
  | .not => "NOT"
  | .is => "IS"
  | .null => "NULL"
  | .among => "IN"
  | .like => "LIKE"
  | .collate => "COLLATE"
  | .distinct => "DISTINCT"

/-- The keyword that a word is. -/
def of? (w : String) : Option Keyword := all.find? (·.text.toList == w.toList.map Char.toUpper)

end Keyword

/-- A token by its role in an expression. -/
inductive Symbol where
  | name (s : String)
  | text (s : String)
  | word (w : String)
  | keyword (k : Keyword)
  | op (o : BinaryOp)
  | dot
  | comma
  | lparen
  | rparen
  | other
deriving DecidableEq

/-- The operator of a sign. -/
def ofSign? (s : String) : Option BinaryOp := BinaryOp.all.find? (·.keyword == s)

def Token.symbol : Token → Symbol
  | .name s => .name s
  | .text s => .text s
  | .word w => (Keyword.of? w).elim (.word w) .keyword
  | .sign s => (ofSign? s).elim .other .op
  | .dot => .dot
  | .lparen => .lparen
  | .rparen => .rparen
  | .other c => if c = ',' then .comma else .other
  | .unclosed => .other

@[simp] theorem symbol_lparen : Token.lparen.symbol = .lparen := rfl

@[simp] theorem symbol_rparen : Token.rparen.symbol = .rparen := rfl

@[simp] theorem symbol_comma : (Token.other ',').symbol = .comma := rfl

@[simp] theorem symbol_keyword (k : Keyword) : (Token.word k.text).symbol = .keyword k := by
  cases k <;> rfl

/-! ## Constants -/

/-- The integer, if it is in the range of integers. -/
def int64? (i : Int) : Option Int64 :=
  if (Int64.ofInt i).toInt = i then some (Int64.ofInt i) else none

/-- The bytes of hexadecimal digits. -/
def bytes? : List Char → Option (List UInt8)
  | [] => some []
  | [_] => none
  | a :: b :: cs => do
    let high ← hexValue? a
    let low ← hexValue? b
    let bytes ← bytes? cs
    some (UInt8.ofNat (16 * high + low) :: bytes)

/-- The number or the bytes of a word. -/
def constant? (w : String) : Option Literal :=
  match integer? [.word w] with
  | some i => (int64? i).map .integer
  | none =>
    match w.toList with
    | '0' :: 'x' :: cs => (bytes? cs).map .binary
    | _ => none

/-- The number of a word after a sign. -/
def negative? (w : String) : Option Literal :=
  (integer? [.sign "-", .word w]).bind fun i => (int64? i).map .integer

/-- The aggregate function of this name. -/
def aggregate? (w : String) : Option AggregateFn := AggregateFn.all.find? (·.keyword == w)

/-! ## The reader -/

namespace Parser

/-- What follows an operand. -/
inductive Suffix where
  | binary (op : BinaryOp)
  | isNull (negated : Bool)
  /-- the list comes after its opening parenthesis -/
  | inList (negated : Bool)
  | collate

/-- The strength of an operator. -/
def opLevel : BinaryOp → Nat
  | .or => 1
  | .and => 2
  | .eq | .notEq | .lt | .lte | .gt | .gte | .like | .notLike => 4
  | .add | .sub => 5
  | .mul | .div => 6

/-- The strength of `NOT`, which takes a comparison but no `AND`. -/
def notLevel : Nat := 3

def Suffix.level : Suffix → Nat
  | .binary op => opLevel op
  | .isNull _ => 4
  | .inList _ => 4
  | .collate => 7

/-- What follows an operand, and the symbols after it. -/
def suffix? : List Symbol → Option (Suffix × List Symbol)
  | .op o :: ss => some (.binary o, ss)
  | .keyword .and :: ss => some (.binary .and, ss)
  | .keyword .or :: ss => some (.binary .or, ss)
  | .keyword .like :: ss => some (.binary .like, ss)
  | .keyword .not :: .keyword .like :: ss => some (.binary .notLike, ss)
  | .keyword .is :: .keyword .null :: ss => some (.isNull false, ss)
  | .keyword .is :: .keyword .not :: .keyword .null :: ss => some (.isNull true, ss)
  | .keyword .among :: .lparen :: ss => some (.inList false, ss)
  | .keyword .not :: .keyword .among :: .lparen :: ss => some (.inList true, ss)
  | .keyword .collate :: .word _ :: ss => some (.collate, ss)
  | _ => none

/-- The names after the first one of a path. -/
def path : List Symbol → List String × List Symbol
  | .dot :: .name s :: ss => (s :: (path ss).1, (path ss).2)
  | ss => ([], ss)

/-- The symbols after a closing parenthesis. -/
def closed? : List Symbol → Option (List Symbol)
  | .rparen :: ss => some ss
  | _ => none

section

variable {σ : Type}

/-- The negation of an expression. Parentheses around it belong to the negation. -/
def negated : Expr σ → Expr σ
  | .grouping e => .not e
  | e => .not e

-- the first argument bounds the depth of the descent
mutual

/-- An expression of operators that bind at least as strongly as `level`. -/
def expression : Nat → Nat → List Symbol → Option (Expr σ × List Symbol)
  | 0, _, _ => none
  | n + 1, level, ss =>
    match ss with
    | .keyword .not :: ss =>
      if level ≤ notLevel then do
        let (e, ss) ← expression n notLevel ss
        climb n level (negated e) ss
      else none
    | ss => do
      let (e, ss) ← operand n ss
      climb n level e ss

/-- The expression that begins with `e` and goes on with operators that bind at least as strongly
as `level`. -/
def climb : Nat → Nat → Expr σ → List Symbol → Option (Expr σ × List Symbol)
  | 0, _, _, _ => none
  | n + 1, level, e, ss =>
    match suffix? ss with
    | none => some (e, ss)
    | some (suffix, rest) =>
      if suffix.level < level then some (e, ss)
      else
        match suffix with
        | .binary op => do
          let (r, rest) ← expression n (opLevel op + 1) rest
          climb n level (.binary e op r) rest
        | .isNull negated => climb n level (.isNull e negated) rest
        | .inList negated => do
          let (es, rest) ← arguments n rest
          climb n level (.inList e es negated) rest
        | .collate => climb n level (.caseSensitive e) rest

/-- A column, a constant, a call, or an expression in parentheses. -/
def operand : Nat → List Symbol → Option (Expr σ × List Symbol)
  | 0, _ => none
  | n + 1, ss =>
    match ss with
    | .name s :: ss => some (.column (.ofPath (s :: (path ss).1)), (path ss).2)
    | .text s :: ss => some (.textConstant s, ss)
    | .keyword .null :: ss => some (.literal .null, ss)
    | .op .sub :: .word w :: ss => (negative? w).map fun v => (.literal v, ss)
    | .word w :: .lparen :: ss => application n w ss
    | .word w :: ss => (constant? w).map fun v => (.literal v, ss)
    | .lparen :: ss => do
      let (e, ss) ← expression n 0 ss
      let ss ← closed? ss
      some (.grouping e, ss)
    | _ => none

/-- A function with its arguments, after the opening parenthesis. -/
def application : Nat → String → List Symbol → Option (Expr σ × List Symbol)
  | 0, _, _ => none
  | n + 1, w, ss =>
    match aggregate? w with
    | none => do
      let (es, ss) ← arguments n ss
      some (.call w es, ss)
    | some fn =>
      match ss with
      | .keyword .distinct :: ss => do
        let (es, ss) ← aggregated n ss
        some (.aggregate fn es true, ss)
      | ss => do
        let (es, ss) ← aggregated n ss
        some (.aggregate fn es false, ss)

/-- The arguments of an aggregate, `*` when there are none. -/
def aggregated : Nat → List Symbol → Option (List (Expr σ) × List Symbol)
  | 0, _ => none
  | n + 1, ss =>
    match ss with
    | .op .mul :: .rparen :: ss => some ([], ss)
    | ss => items n ss

/-- Expressions up to the closing parenthesis. -/
def arguments : Nat → List Symbol → Option (List (Expr σ) × List Symbol)
  | 0, _ => none
  | n + 1, ss =>
    match ss with
    | .rparen :: ss => some ([], ss)
    | ss => items n ss

/-- One or more expressions up to the closing parenthesis. -/
def items : Nat → List Symbol → Option (List (Expr σ) × List Symbol)
  | 0, _ => none
  | n + 1, ss => do
    let (e, ss) ← expression n 0 ss
    match ss with
    | .comma :: ss => do
      let (es, ss) ← items n ss
      some (e :: es, ss)
    | .rparen :: ss => some ([e], ss)
    | _ => none

end

attribute [simp] operand

end

end Parser

/-- The expression that a text is read as. -/
def expression? {σ : Type} (text : String) : Option (Expr σ) :=
  let ss := (tokens text).map Token.symbol
  match Parser.expression (3 * ss.length + 2) 0 ss with
  | some (e, []) => some e
  | _ => none

-- without parentheses the strengths decide
example : (expression? "[a] OR [b] AND NOT [c] = 1 + 2 * 3").map (· ==
    (.binary (.named "a") .or (.binary (.named "b") .and (.not (.binary (.named "c") .eq
      (.binary (.int 1) .add (.binary (.int 2) .mul (.int 3)))))) : Expr Empty)) = some true := by
  decide +kernel

/-! ## Explicit expressions -/

/-- A word that begins with a letter or an underscore and is no keyword. -/
def isIdentifier (w : String) : Bool :=
  w.toList.head?.any isWordStart && w.toList.all isWordChar && (Keyword.of? w).isNone

/-- A constant whose text has no escapes and no other reading. -/
def isPlainConstant : Literal → Bool
  | .null => true
  | .integer _ => true
  | .binary _ => true
  | .string s => !s.toList.contains apostrophe && !s.toList.contains '\\'
  | _ => false

end Sql

open Sql

namespace Expr

variable {σ : Type}

/-- A column, a constant, a call or an expression in parentheses. -/
def isOperand : Expr σ → Bool
  | .column _ => true
  | .literal _ => true
  | .aggregate _ _ _ => true
  | .call _ _ => true
  | .grouping _ => true
  | _ => false

mutual

/-- The parentheses of the expression say how its operators are nested: operators are applied to
operands only. -/
def isExplicit : Expr σ → Bool
  | .column _ => true
  | .literal v => isPlainConstant v
  | .aggregate _ args _ => areExplicit args
  | .call f args => isIdentifier f && (aggregate? f).isNone && areExplicit args
  | .grouping e => isExplicit e
  | .not e => isExplicit e
  | .caseSensitive e => isOperand e && isExplicit e
  | .binary l _ r => isOperand l && isExplicit l && isOperand r && isExplicit r
  | .isNull e _ => isOperand e && isExplicit e
  | .inList e list _ => isOperand e && isExplicit e && areExplicit list
  | .wildcard _ => false
  | .typed _ _ => false
  | .alias _ _ => false
  | .distinct _ => false
  | .inSubquery _ _ _ => false
  | .raw _ => false

/-- All of the expressions are explicit. -/
def areExplicit : List (Expr σ) → Bool
  | [] => true
  | e :: es => isExplicit e && areExplicit es

end

/-! ## The tokens of an expression -/

/-- The tokens of an operator. -/
def opTokens : BinaryOp → List Token
  | .and => [.word Keyword.and.text]
  | .or => [.word Keyword.or.text]
  | .like => [.word Keyword.like.text]
  | .notLike => [.word Keyword.not.text, .word Keyword.like.text]
  | op => [.sign op.keyword]

/-- `NOT` where a test is negated. -/
def negationTokens (negated : Bool) : List Token := if negated then [.word Keyword.not.text] else []

/-- The tokens of a constant. -/
def constantTokens : Literal → List Token
  | .null => [.word Keyword.null.text]
  | .integer i => integerTokens i.toInt
  | .binary bytes => [.word (hex bytes)]
  | .string s => [.text s]
  | _ => []

mutual

/-- The tokens of an explicit expression. -/
def tokens (collation : String) : Expr σ → List Token
  | .column c => pathTokens c.path
  | .literal v => constantTokens v
  | .aggregate fn args d =>
    [.word fn.keyword, .lparen] ++ (if d then [.word Keyword.distinct.text] else []) ++
      (if args.isEmpty then [.sign "*"] else tokensList collation args) ++ [.rparen]
  | .call f args => [.word f, .lparen] ++ tokensList collation args ++ [.rparen]
  | .grouping e => [.lparen] ++ tokens collation e ++ [.rparen]
  | .not e => [.word Keyword.not.text, .lparen] ++ tokens collation e ++ [.rparen]
  | .caseSensitive e => tokens collation e ++ [.word Keyword.collate.text, .word collation]
  | .binary l op r => tokens collation l ++ opTokens op ++ tokens collation r
  | .isNull e n =>
    tokens collation e ++ [.word Keyword.is.text] ++ negationTokens n ++ [.word Keyword.null.text]
  | .inList e list n =>
    tokens collation e ++ negationTokens n ++ [.word Keyword.among.text, .lparen] ++
      tokensList collation list ++ [.rparen]
  | _ => []

/-- The tokens of expressions with commas between them. -/
def tokensList (collation : String) : List (Expr σ) → List Token
  | [] => []
  | [e] => tokens collation e
  | e :: e' :: es => tokens collation e ++ [.other ','] ++ tokensList collation (e' :: es)

end

/-- The symbols of an explicit expression. -/
def symbols (collation : String) (e : Expr σ) : List Symbol :=
  (e.tokens collation).map Token.symbol

/-- The symbols of expressions with commas between them. -/
def symbolsList (collation : String) (es : List (Expr σ)) : List Symbol :=
  (tokensList collation es).map Token.symbol

end Expr

/-! ## Reading constants -/

namespace Sql

open Text

theorem Keyword.of?_eq_none {w : String} {c : Char} (hw : w.toList.head? = some c)
    (hc : isDigit c = true) : of? w = none := by
  have hletter : ∀ k : Keyword, k.text.toList.head?.any isDigit = false := by
    intro k
    cases k <;> rfl
  have hupper : c.toUpper = c := by
    have hdigit := isDigit_iff.1 hc
    simp only [Char.isDigit, Bool.and_eq_true, decide_eq_true_eq] at hdigit
    unfold Char.toUpper
    split
    · rename_i hlower
      exact absurd (UInt32.le_trans hlower.1 hdigit.2) (by decide)
    · rfl
  refine List.find?_eq_none.2 fun k _ hk => ?_
  have hhead : k.text.toList.head? = some c := by
    rw [beq_iff_eq.1 hk, List.head?_map, hw, Option.map_some, hupper]
  have hdigit := hletter k
  rw [hhead, Option.any_some, hc] at hdigit
  cases hdigit

theorem int64?_toInt (i : Int64) : int64? i.toInt = some i := by
  simp [int64?]

theorem constant?_natural {i : Int64} {n : Nat} (h : i.toInt = n) :
    constant? (natural n) = some (.integer i) := by
  have hi : integer? [.word (natural n)] = some (n : Int) := integer?_integerTokens (.ofNat n)
  rw [constant?, hi]
  show (int64? n).map _ = _
  rw [← h, int64?_toInt, Option.map_some]

theorem hexValue?_hexDigit {n : Nat} (h : n < 16) : hexValue? (hexDigit n) = some n := by
  have hall : ∀ n : Fin 16, hexValue? (hexDigit n) = some n.val := by decide
  exact hall ⟨n, h⟩

theorem bytes?_hex (bytes : List UInt8) : bytes? (bytes.flatMap hexByte) = some bytes := by
  induction bytes with
  | nil => rfl
  | cons b bytes ih =>
    have hhigh : b.toNat / 16 < 16 := by
      have := b.toNat_lt
      omega
    rw [List.flatMap_cons, hexByte, List.cons_append, List.cons_append, List.nil_append, bytes?,
      hexValue?_hexDigit hhigh, hexValue?_hexDigit (Nat.mod_lt _ (by decide)), ih]
    simp only [Option.bind_eq_bind, Option.bind_some, Nat.div_add_mod, UInt8.ofNat_toNat]

theorem constant?_hex (bytes : List UInt8) : constant? (hex bytes) = some (.binary bytes) := by
  have htext : (hex bytes).toList = '0' :: 'x' :: bytes.flatMap hexByte := by
    simp [hex]
  have hnone : integer? [.word (hex bytes)] = none := by
    rw [integer?, htext]
    rfl
  rw [constant?, hnone, htext]
  show (bytes? _).map _ = _
  rw [bytes?_hex, Option.map_some]

/-! ## Reading operands -/

namespace Parser

variable {σ : Type} {collation : String} {n level : Nat} {e : Expr σ} {ss rest : List Symbol}

/-- What follows is not part of the operand before it. -/
def Continues (rest : List Symbol) : Prop := ∀ s ∈ rest.head?, s ≠ .dot ∧ s ≠ .lparen

/-- No operator follows. -/
def Ends (rest : List Symbol) : Prop := ∀ s ∈ rest.head?, s = .rparen ∨ s = .comma

theorem Ends.continues (h : Ends rest) : Continues rest := by
  intro s hs
  rcases h s hs with rfl | rfl <;> decide

theorem ends_rparen (rest : List Symbol) : Ends (.rparen :: rest) := by
  intro s hs
  exact .inl (Option.some.inj hs).symm

theorem ends_comma (rest : List Symbol) : Ends (.comma :: rest) := by
  intro s hs
  exact .inr (Option.some.inj hs).symm

theorem climb_ends (h : Ends rest) : climb (n + 1) level e rest = some (e, rest) := by
  have hnone : suffix? rest = none := by
    cases rest with
    | nil => rfl
    | cons s rest =>
      rcases h s rfl with rfl | rfl <;> rfl
  rw [climb, hnone]

/-- An expression that begins with an operand goes on after it. -/
theorem expression_of_operand (h : operand n ss = some (e, rest)) :
    expression (n + 1) level ss = climb n level e rest := by
  have hnot : ∀ tail, ss ≠ .keyword .not :: tail := by
    rintro tail rfl
    cases n <;> simp at h
  rw [expression, h]
  · rfl
  · exact hnot

/-- The operand is read back, whatever operator follows. -/
def ReadsOperand (collation : String) (e : Expr σ) : Prop :=
  ∀ (n : Nat) (rest : List Symbol), 3 * (e.symbols collation).length ≤ n → Continues rest →
    operand n (e.symbols collation ++ rest) = some (e, rest)

/-- The expression is read back where no operator follows. -/
def ReadsWhole (collation : String) (e : Expr σ) : Prop :=
  ∀ (n : Nat) (rest : List Symbol), 3 * (e.symbols collation).length + 2 ≤ n → Ends rest →
    expression n 0 (e.symbols collation ++ rest) = some (e, rest)

/-- The expressions are read back up to a closing parenthesis. -/
def ReadsItems (collation : String) (es : List (Expr σ)) : Prop :=
  ∀ (n : Nat) (rest : List Symbol), 3 * (Expr.symbolsList collation es).length + 3 ≤ n →
    es ≠ [] → items n (Expr.symbolsList collation es ++ .rparen :: rest) = some (es, rest)

/-- An operand that stands alone is an expression, whatever is around it. -/
theorem ReadsOperand.alone (h : ReadsOperand collation e)
    (hn : 3 * (e.symbols collation).length + 2 ≤ n) (hrest : Ends rest) :
    expression n level (e.symbols collation ++ rest) = some (e, rest) := by
  obtain ⟨n, rfl⟩ : ∃ m, n = m + 2 := ⟨n - 2, by omega⟩
  rw [expression_of_operand (h _ _ (by omega) hrest.continues), climb_ends hrest]

theorem ReadsOperand.whole (h : ReadsOperand collation e) : ReadsWhole collation e :=
  fun _ _ hn hrest => h.alone hn hrest

theorem path_pathTokens (hrest : Continues rest) : ∀ (s : String) (ss : List String),
    ∃ tail, (pathTokens (s :: ss)).map Token.symbol ++ rest = .name s :: tail ∧
      path tail = (ss, rest)
  | s, [] => by
    refine ⟨rest, rfl, ?_⟩
    cases rest with
    | nil => rfl
    | cons t rest =>
      have ht := (hrest t rfl).1
      cases t <;> first | rfl | exact absurd rfl ht
  | s, t :: ss => by
    obtain ⟨tail, htail, hpath⟩ := path_pathTokens hrest t ss
    refine ⟨.dot :: .name t :: tail, ?_, by rw [path, hpath]⟩
    rw [pathTokens, List.map_cons, List.map_cons, List.cons_append, List.cons_append, htail]
    rfl

theorem readsOperand_column (c : ColumnRef) : ReadsOperand collation (.column c : Expr σ) := by
  intro n rest hn hrest
  obtain ⟨s, ss, hpath⟩ : ∃ s ss, c.path = s :: ss :=
    List.exists_cons_of_ne_nil (by simp [ColumnRef.path])
  obtain ⟨tail, htail, hread⟩ := path_pathTokens hrest s ss
  have hsymbols : (Expr.column c : Expr σ).symbols collation ++ rest = .name s :: tail := by
    rw [Expr.symbols, Expr.tokens, hpath, htail]
  have hpos : 0 < ((Expr.column c : Expr σ).symbols collation).length := by
    rw [Expr.symbols, Expr.tokens, hpath]
    cases ss <;> simp [pathTokens]
  obtain ⟨n, rfl⟩ : ∃ m, n = m + 1 := ⟨n - 1, by omega⟩
  rw [hsymbols, operand, hread, ← hpath, ofPath_path]

theorem operand_word {w : String} {v : Literal} (hv : constant? w = some v)
    (hrest : Continues rest) :
    operand (n + 1) (.word w :: rest) = some ((.literal v : Expr σ), rest) := by
  cases rest with
  | nil => simp [hv]
  | cons s rest =>
    have hs := (hrest s rfl).2
    cases s <;> first | exact absurd rfl hs | simp [hv]

theorem symbol_word {w : String} {d : Char} (hw : w.toList.head? = some d)
    (hd : isDigit d = true) : (Token.word w).symbol = .word w := by
  rw [Token.symbol, Keyword.of?_eq_none hw hd]
  rfl

theorem symbol_natural (k : Nat) : (Token.word (natural k)).symbol = .word (natural k) := by
  obtain ⟨d, ds, hds⟩ := List.exists_cons_of_ne_nil (digits_ne_nil k)
  have hhead : (natural k).toList.head? = some d := by
    rw [natural, String.toList_ofList, hds]
    rfl
  exact symbol_word hhead (isDigit_of_mem_digits (by rw [hds]; exact List.mem_cons_self))

theorem readsOperand_literal {v : Literal} (hv : isPlainConstant v = true) :
    ReadsOperand collation (.literal v : Expr σ) := by
  intro n rest hn hrest
  have hpos : 0 < (Expr.constantTokens v).length := by
    cases v with
    | integer i => rw [Expr.constantTokens]; cases i.toInt <;> simp [integerTokens]
    | null | string _ | binary _ => simp [Expr.constantTokens]
    | boolean _ | float _ | date _ | dateTime _ | time _ => cases hv
  obtain ⟨n, rfl⟩ : ∃ m, n = m + 1 := ⟨n - 1, by
    simp only [Expr.symbols, Expr.tokens, List.length_map] at hn
    omega⟩
  simp only [Expr.symbols, Expr.tokens]
  cases v with
  | null => rfl
  | string s => rfl
  | binary bytes =>
    have hsymbol : (Token.word (hex bytes)).symbol = .word (hex bytes) :=
      symbol_word (d := '0') (by simp [hex]) (by decide)
    rw [Expr.constantTokens, List.map_singleton, hsymbol]
    exact operand_word (constant?_hex bytes) hrest
  | integer i =>
    rw [Expr.constantTokens]
    cases hi : i.toInt with
    | ofNat k =>
      rw [integerTokens, List.map_singleton, symbol_natural]
      exact operand_word (constant?_natural hi) hrest
    | negSucc k =>
      have hread : negative? (natural (k + 1)) = some (.integer i) := by
        have htokens := integer?_integerTokens (.negSucc k)
        rw [integerTokens] at htokens
        rw [negative?, htokens, Option.bind_some, ← hi, int64?_toInt, Option.map_some]
      rw [integerTokens, List.map_cons, List.map_singleton, symbol_natural]
      show operand (n + 1) (.op .sub :: .word (natural (k + 1)) :: rest) = _
      rw [operand, hread, Option.map_some]
  | boolean _ | float _ | date _ | dateTime _ | time _ => cases hv

/-! ## Reading calls -/

/-- No expression begins with a closing parenthesis, a star or the mark of distinct values. -/
theorem expression_eq_none {s : Symbol}
    (hs : s = .rparen ∨ s = .op .mul ∨ s = .keyword .distinct) :
    (expression n level (s :: ss) : Option (Expr σ × List Symbol)) = none := by
  have hoperand : ∀ m, (operand m (s :: ss) : Option (Expr σ × List Symbol)) = none := by
    intro m
    rcases hs with rfl | rfl | rfl <;> cases m <;> simp
  cases n with
  | zero => rfl
  | succ n => rcases hs with rfl | rfl | rfl <;> simp [expression, hoperand]

theorem items_eq_none {s : Symbol} (hs : s = .rparen ∨ s = .op .mul ∨ s = .keyword .distinct) :
    (items n (s :: ss) : Option (List (Expr σ) × List Symbol)) = none := by
  cases n with
  | zero => rfl
  | succ n => simp [items, expression_eq_none hs]

variable {es : List (Expr σ)}

/-- Arguments are read back, also when there are none. -/
theorem ReadsItems.arguments (h : ReadsItems collation es)
    (hn : 3 * (Expr.symbolsList collation es).length + 4 ≤ n) :
    arguments n (Expr.symbolsList collation es ++ .rparen :: rest) = some (es, rest) := by
  obtain ⟨n, rfl⟩ : ∃ m, n = m + 1 := ⟨n - 1, by omega⟩
  cases es with
  | nil => rfl
  | cons e es =>
    have hitems : items n (Expr.symbolsList collation (e :: es) ++ .rparen :: rest) =
        some (e :: es, rest) := h _ _ (by omega) (by simp)
    generalize Expr.symbolsList collation (e :: es) ++ .rparen :: rest = ss at hitems ⊢
    rw [Parser.arguments]
    · exact hitems
    · rintro tail rfl
      rw [items_eq_none (.inl rfl)] at hitems
      cases hitems

theorem symbol_identifier {w : String} (hw : isIdentifier w = true) :
    (Token.word w).symbol = .word w := by
  simp only [isIdentifier, Bool.and_eq_true, Option.isNone_iff_eq_none] at hw
  rw [Token.symbol, hw.2]
  rfl

theorem ReadsItems.call {f : String} (hf : isIdentifier f = true) (haggregate : aggregate? f = none)
    (h : ReadsItems collation es) : ReadsOperand collation (.call f es) := by
  intro n rest hn hrest
  have hsymbols : (Expr.call f es).symbols collation ++ rest =
      .word f :: .lparen :: (Expr.symbolsList collation es ++ .rparen :: rest) := by
    simp [Expr.symbols, Expr.tokens, Expr.symbolsList, symbol_identifier hf]
  have hlength : ((Expr.call f es).symbols collation).length =
      (Expr.symbolsList collation es).length + 3 := by
    simp [Expr.symbols, Expr.tokens, Expr.symbolsList]
  obtain ⟨n, rfl⟩ : ∃ m, n = m + 2 := ⟨n - 2, by omega⟩
  have hread : Parser.arguments n (Expr.symbolsList collation es ++ .rparen :: rest) =
      some (es, rest) := h.arguments (by omega)
  simp [hsymbols, application, haggregate, hread]

theorem symbol_aggregate (fn : AggregateFn) : (Token.word fn.keyword).symbol = .word fn.keyword ∧
    aggregate? fn.keyword = some fn := by
  cases fn <;> exact ⟨rfl, rfl⟩

/-- The arguments of an aggregate are read back. -/
theorem ReadsItems.aggregated (h : ReadsItems collation es)
    (hn : 3 * (Expr.symbolsList collation es).length + 4 ≤ n) :
    aggregated n ((if es.isEmpty then [.sign "*"] else Expr.tokensList collation es).map
      Token.symbol ++ .rparen :: rest) = some (es, rest) := by
  obtain ⟨n, rfl⟩ : ∃ m, n = m + 1 := ⟨n - 1, by omega⟩
  cases es with
  | nil => rfl
  | cons e es =>
    have hitems : items n (Expr.symbolsList collation (e :: es) ++ .rparen :: rest) =
        some (e :: es, rest) := h _ _ (by omega) (by simp)
    rw [List.isEmpty_cons, if_neg Bool.false_ne_true]
    change Parser.aggregated (n + 1) (Expr.symbolsList collation (e :: es) ++ _) = _
    generalize Expr.symbolsList collation (e :: es) ++ .rparen :: rest = ss at hitems ⊢
    rw [Parser.aggregated]
    · exact hitems
    · rintro tail rfl
      rw [items_eq_none (.inr (.inl rfl))] at hitems
      cases hitems

theorem aggregated_eq_none :
    (aggregated n (.keyword .distinct :: ss) : Option (List (Expr σ) × List Symbol)) = none := by
  cases n with
  | zero => rfl
  | succ n => simp [Parser.aggregated, items_eq_none]

theorem ReadsItems.aggregate (fn : AggregateFn) (d : Bool) (h : ReadsItems collation es) :
    ReadsOperand collation (.aggregate fn es d) := by
  intro n rest hn hrest
  obtain ⟨hsymbol, hfn⟩ := symbol_aggregate fn
  have hlength : (Expr.symbolsList collation es).length + 3 ≤
      ((Expr.aggregate fn es d).symbols collation).length := by
    cases es <;> cases d <;> simp [Expr.symbols, Expr.tokens, Expr.symbolsList, Expr.tokensList]
  obtain ⟨n, rfl⟩ : ∃ m, n = m + 2 := ⟨n - 2, by omega⟩
  have hread : Parser.aggregated n ((if es.isEmpty then [.sign "*"] else
      Expr.tokensList collation es).map Token.symbol ++ .rparen :: rest) = some (es, rest) :=
    h.aggregated (by omega)
  generalize hss : (if es.isEmpty then [.sign "*"] else Expr.tokensList collation es).map
    Token.symbol ++ .rparen :: rest = ss at hread
  have hsymbols : (Expr.aggregate fn es d).symbols collation ++ rest =
      .word fn.keyword :: .lparen :: ((if d then [.keyword .distinct] else []) ++ ss) := by
    cases d <;> simp [Expr.symbols, Expr.tokens, hsymbol, ← hss]
  rw [hsymbols, operand, application, hfn]
  cases d with
  | true => simp [hread]
  | false =>
    rw [if_neg Bool.false_ne_true, List.nil_append]
    dsimp only
    split
    · rw [aggregated_eq_none] at hread
      cases hread
    · simp [hread]

/-! ## Reading operators -/

theorem ReadsWhole.grouping (h : ReadsWhole collation e) :
    ReadsOperand collation (.grouping e) := by
  intro n rest hn hrest
  have hsymbols : (Expr.grouping e).symbols collation ++ rest =
      .lparen :: (e.symbols collation ++ .rparen :: rest) := by
    simp [Expr.symbols, Expr.tokens]
  have hlength : ((Expr.grouping e).symbols collation).length =
      (e.symbols collation).length + 2 := by
    simp [Expr.symbols, Expr.tokens]
  obtain ⟨n, rfl⟩ : ∃ m, n = m + 1 := ⟨n - 1, by omega⟩
  have hread : expression n 0 (e.symbols collation ++ .rparen :: rest) =
      some (e, .rparen :: rest) := h _ _ (by omega) (ends_rparen rest)
  simp [hsymbols, hread, closed?]

theorem ReadsWhole.not (h : ReadsWhole collation e) : ReadsWhole collation (.not e) := by
  intro n rest hn hrest
  have hsymbols : (Expr.not e).symbols collation ++ rest =
      .keyword .not :: ((Expr.grouping e).symbols collation ++ rest) := by
    simp [Expr.symbols, Expr.tokens]
  have hlength : ((Expr.not e).symbols collation).length =
      ((Expr.grouping e).symbols collation).length + 1 := by
    simp [Expr.symbols, Expr.tokens]
  obtain ⟨n, rfl⟩ : ∃ m, n = m + 2 := ⟨n - 2, by omega⟩
  have hread : expression (n + 1) notLevel ((Expr.grouping e).symbols collation ++ rest) =
      some (.grouping e, rest) := h.grouping.alone (by omega) hrest
  rw [hsymbols, expression, if_pos (Nat.zero_le _), hread]
  exact climb_ends hrest

theorem suffix?_opTokens (op : BinaryOp) (ss : List Symbol) :
    suffix? ((Expr.opTokens op).map Token.symbol ++ ss) = some (.binary op, ss) := by
  cases op <;> rfl

/-- What is applied to an operand is not part of it. -/
theorem continues_of_suffix? {suffix : Suffix × List Symbol} (h : suffix? ss = some suffix) :
    Continues ss := by
  intro s hs
  cases ss with
  | nil => cases hs
  | cons t ss =>
    obtain rfl : t = s := Option.some.inj hs
    constructor
    · rintro rfl
      cases h
    · rintro rfl
      cases h

/-- The operators that follow an operand are read after it. -/
theorem ReadsOperand.followed (h : ReadsOperand collation e) {suffix : Suffix × List Symbol}
    (hsuffix : suffix? ss = some suffix) (hn : 3 * (e.symbols collation).length ≤ n) :
    expression (n + 1) level (e.symbols collation ++ ss) = climb n level e ss :=
  expression_of_operand (h _ _ hn (continues_of_suffix? hsuffix))

theorem ReadsOperand.binary {l r : Expr σ} (op : BinaryOp) (hl : ReadsOperand collation l)
    (hr : ReadsOperand collation r) : ReadsWhole collation (.binary l op r) := by
  intro n rest hn hrest
  have hsymbols : (Expr.binary l op r).symbols collation ++ rest = l.symbols collation ++
      ((Expr.opTokens op).map Token.symbol ++ (r.symbols collation ++ rest)) := by
    simp [Expr.symbols, Expr.tokens]
  have hlength : (l.symbols collation).length + (r.symbols collation).length + 1 ≤
      ((Expr.binary l op r).symbols collation).length := by
    have hop : 1 ≤ (Expr.opTokens op).length := by cases op <;> decide
    simp only [Expr.symbols, Expr.tokens, List.length_map, List.length_append]
    omega
  obtain ⟨n, rfl⟩ : ∃ m, n = m + 3 := ⟨n - 3, by omega⟩
  have hright : expression (n + 1) (opLevel op + 1) (r.symbols collation ++ rest) =
      some (r, rest) := hr.alone (by omega) hrest
  rw [hsymbols, hl.followed (suffix?_opTokens op _) (by omega), climb, suffix?_opTokens]
  simp [hright, climb_ends hrest]

theorem ReadsOperand.isNull (negated : Bool) (h : ReadsOperand collation e) :
    ReadsWhole collation (.isNull e negated) := by
  intro n rest hn hrest
  have hsymbols : (Expr.isNull e negated).symbols collation ++ rest = e.symbols collation ++
      (.keyword .is :: ((Expr.negationTokens negated).map Token.symbol ++
        .keyword .null :: rest)) := by
    simp [Expr.symbols, Expr.tokens]
  have hlength : (e.symbols collation).length + 2 ≤
      ((Expr.isNull e negated).symbols collation).length := by
    simp [Expr.symbols, Expr.tokens]
  have hsuffix : suffix? (.keyword .is :: ((Expr.negationTokens negated).map Token.symbol ++
      .keyword .null :: rest)) = some (.isNull negated, rest) := by
    cases negated <;> rfl
  obtain ⟨n, rfl⟩ : ∃ m, n = m + 3 := ⟨n - 3, by omega⟩
  rw [hsymbols, h.followed hsuffix (by omega), climb, hsuffix]
  simp [climb_ends hrest]

theorem ReadsOperand.caseSensitive (hcollation : isIdentifier collation = true)
    (h : ReadsOperand collation e) : ReadsWhole collation (.caseSensitive e) := by
  intro n rest hn hrest
  have hsymbols : (Expr.caseSensitive e).symbols collation ++ rest =
      e.symbols collation ++ (.keyword .collate :: .word collation :: rest) := by
    simp [Expr.symbols, Expr.tokens, symbol_identifier hcollation]
  have hlength : (e.symbols collation).length + 2 ≤
      ((Expr.caseSensitive e).symbols collation).length := by
    simp [Expr.symbols, Expr.tokens]
  have hsuffix : suffix? (.keyword .collate :: .word collation :: rest) =
      some (.collate, rest) := rfl
  obtain ⟨n, rfl⟩ : ∃ m, n = m + 3 := ⟨n - 3, by omega⟩
  rw [hsymbols, h.followed hsuffix (by omega), climb, hsuffix]
  simp [climb_ends hrest]

theorem ReadsOperand.inList (negated : Bool) (h : ReadsOperand collation e)
    (hlist : ReadsItems collation es) : ReadsWhole collation (.inList e es negated) := by
  intro n rest hn hrest
  have hsymbols : (Expr.inList e es negated).symbols collation ++ rest = e.symbols collation ++
      ((Expr.negationTokens negated).map Token.symbol ++ .keyword .among :: .lparen ::
        (Expr.symbolsList collation es ++ .rparen :: rest)) := by
    simp [Expr.symbols, Expr.tokens, Expr.symbolsList]
  have hlength : (e.symbols collation).length + (Expr.symbolsList collation es).length + 3 ≤
      ((Expr.inList e es negated).symbols collation).length := by
    simp only [Expr.symbols, Expr.tokens, Expr.symbolsList, List.length_map, List.length_append,
      List.length_cons, List.length_nil]
    omega
  have hsuffix : suffix? ((Expr.negationTokens negated).map Token.symbol ++ .keyword .among ::
      .lparen :: (Expr.symbolsList collation es ++ .rparen :: rest)) =
      some (.inList negated, Expr.symbolsList collation es ++ .rparen :: rest) := by
    cases negated <;> rfl
  obtain ⟨n, rfl⟩ : ∃ m, n = m + 3 := ⟨n - 3, by omega⟩
  have hread : Parser.arguments (n + 1) (Expr.symbolsList collation es ++ .rparen :: rest) =
      some (es, rest) := hlist.arguments (by omega)
  rw [hsymbols, h.followed hsuffix (by omega), climb, hsuffix]
  simp [hread, climb_ends hrest]

theorem ReadsWhole.last (h : ReadsWhole collation e) : ReadsItems collation [e] := by
  intro n rest hn _
  have hlist : Expr.symbolsList collation [e] = e.symbols collation := rfl
  rw [hlist] at hn ⊢
  obtain ⟨n, rfl⟩ : ∃ m, n = m + 1 := ⟨n - 1, by omega⟩
  have hread : expression n 0 (e.symbols collation ++ .rparen :: rest) =
      some (e, .rparen :: rest) := h _ _ (by omega) (ends_rparen rest)
  simp [items, hread]

theorem ReadsWhole.next {e' : Expr σ} (h : ReadsWhole collation e)
    (hrest : ReadsItems collation (e' :: es)) : ReadsItems collation (e :: e' :: es) := by
  intro n rest hn _
  have hlist : Expr.symbolsList collation (e :: e' :: es) =
      e.symbols collation ++ .comma :: Expr.symbolsList collation (e' :: es) := by
    simp [Expr.symbolsList, Expr.tokensList, Expr.symbols]
  have hlength : (Expr.symbolsList collation (e :: e' :: es)).length =
      (e.symbols collation).length + (Expr.symbolsList collation (e' :: es)).length + 1 := by
    rw [hlist, List.length_append, List.length_cons, Nat.add_assoc]
  obtain ⟨n, rfl⟩ : ∃ m, n = m + 1 := ⟨n - 1, by omega⟩
  have hread := h n (.comma :: (Expr.symbolsList collation (e' :: es) ++ .rparen :: rest))
    (by omega) (ends_comma _)
  have hitems := hrest n rest (by omega) (by simp)
  simp [hlist, items, hread, hitems]

/-! ## Reading expressions back -/

-- an operand is an expression of its own, so both are shown at once
mutual

/-- **An explicit expression is read back** from its symbols. -/
theorem reads_symbols (hcollation : isIdentifier collation = true) : ∀ e : Expr σ,
    e.isExplicit = true → (e.isOperand = true → ReadsOperand collation e) ∧ ReadsWhole collation e
  | .column c, _ => ⟨fun _ => readsOperand_column c, (readsOperand_column c).whole⟩
  | .literal v, h => ⟨fun _ => readsOperand_literal h, (readsOperand_literal h).whole⟩
  | .aggregate fn args d, h => by
    have hread := (reads_symbolsList hcollation args h).aggregate fn d
    exact ⟨fun _ => hread, hread.whole⟩
  | .call f args, h => by
    simp only [Expr.isExplicit, Bool.and_eq_true, Option.isNone_iff_eq_none] at h
    have hread := (reads_symbolsList hcollation args h.2).call h.1.1 h.1.2
    exact ⟨fun _ => hread, hread.whole⟩
  | .grouping e, h => by
    have hread := (reads_symbols hcollation e h).2.grouping
    exact ⟨fun _ => hread, hread.whole⟩
  | .not e, h => ⟨nofun, (reads_symbols hcollation e h).2.not⟩
  | .caseSensitive e, h => by
    simp only [Expr.isExplicit, Bool.and_eq_true] at h
    exact ⟨nofun, ((reads_symbols hcollation e h.2).1 h.1).caseSensitive hcollation⟩
  | .binary l op r, h => by
    simp only [Expr.isExplicit, Bool.and_eq_true] at h
    have hl := (reads_symbols hcollation l h.1.1.2).1 h.1.1.1
    have hr := (reads_symbols hcollation r h.2).1 h.1.2
    exact ⟨nofun, hl.binary op hr⟩
  | .isNull e negated, h => by
    simp only [Expr.isExplicit, Bool.and_eq_true] at h
    exact ⟨nofun, ((reads_symbols hcollation e h.2).1 h.1).isNull negated⟩
  | .inList e list negated, h => by
    simp only [Expr.isExplicit, Bool.and_eq_true] at h
    have he := (reads_symbols hcollation e h.1.2).1 h.1.1
    exact ⟨nofun, he.inList negated (reads_symbolsList hcollation list h.2)⟩
  | .wildcard _, h | .typed _ _, h | .alias _ _, h | .distinct _, h | .inSubquery _ _ _, h
  | .raw _, h => by cases h

theorem reads_symbolsList (hcollation : isIdentifier collation = true) : ∀ es : List (Expr σ),
    Expr.areExplicit es = true → ReadsItems collation es
  | [], _ => fun _ _ _ hne => absurd rfl hne
  | [e], h => by
    simp only [Expr.areExplicit, Bool.and_true] at h
    exact (reads_symbols hcollation e h).2.last
  | e :: e' :: es, h => by
    rw [Expr.areExplicit, Bool.and_eq_true] at h
    exact (reads_symbols hcollation e h.1).2.next (reads_symbolsList hcollation (e' :: es) h.2)

end

end Parser

/-- A text with the tokens of an explicit expression is read as that expression. -/
theorem expression?_of_reads {σ : Type} {collation text : String}
    (hcollation : isIdentifier collation = true) {e : Expr σ} (he : e.isExplicit = true)
    (h : Reads text (e.tokens collation)) : expression? text = some e := by
  have hread := (Parser.reads_symbols hcollation e he).2 _ [] (Nat.le_refl _) nofun
  rw [List.append_nil] at hread
  simp only [expression?, h.tokens_eq]
  change (match Parser.expression (3 * (e.symbols collation).length + 2) 0
    (e.symbols collation) with | some (e, []) => some e | _ => none) = some e
  rw [hread]

end Sql

end Transact
