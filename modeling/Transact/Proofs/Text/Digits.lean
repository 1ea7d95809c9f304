import Mathlib.Algebra.Group.Nat.Defs
import Transact.Text.Basic

/-!
# Decimal digits

The digits of a number are digits, denote the number, and have no zero in front. A run of them ends
at the first other character. `padded` fills them up with zeros, which changes neither that they are
digits nor what they denote.
-/

set_option autoImplicit false

namespace Transact.Text

theorem digitsValue_eq (cs : List Char) : digitsValue cs = Nat.ofDigitChars 10 cs 0 := rfl

theorem isDigit_iff {c : Char} : isDigit c = true ↔ c.isDigit = true := by
  simp only [isDigit, Char.isDigit, Bool.and_eq_true, decide_eq_true_eq]
  rfl

theorem isDigit_of_mem_digits {n : Nat} {c : Char} (h : c ∈ digits n) : isDigit c = true :=
  isDigit_iff.2 (Nat.isDigit_of_mem_toDigits (by decide) (by decide) h)

theorem digits_ne_nil (n : Nat) : digits n ≠ [] := Nat.toDigits_ne_nil

/-- The digits of a number denote it. -/
@[simp] theorem digitsValue_digits (n : Nat) : digitsValue (digits n) = n :=
  Nat.ofDigitChars_ten_toDigits

theorem digits_injective {m n : Nat} (h : digits m = digits n) : m = n := by
  rw [← digitsValue_digits m, h, digitsValue_digits]

theorem digitsValue_append (cs ds : List Char) :
    digitsValue (cs ++ ds) = 10 ^ ds.length * digitsValue cs + digitsValue ds := by
  simp only [digitsValue_eq, Nat.ofDigitChars_append]
  exact Nat.ofDigitChars_eq_ofDigitChars_zero

theorem digitsValue_cons (c : Char) (cs : List Char) :
    digitsValue (c :: cs) = 10 ^ cs.length * digitValue c + digitsValue cs := by
  have hc : digitsValue [c] = digitValue c := Nat.zero_add _
  rw [← hc]
  exact digitsValue_append [c] cs

theorem digitsValue_lt {cs : List Char} (h : ∀ c ∈ cs, isDigit c = true) :
    digitsValue cs < 10 ^ cs.length := by
  induction cs with
  | nil => decide
  | cons c cs ih =>
    obtain ⟨hc, hcs⟩ := List.forall_mem_cons.1 h
    have hdigit : digitValue c ≤ 9 := by
      have hle : c ≤ '9' := by simp_all [isDigit]
      have : c.toNat ≤ 57 := hle
      have hzero : '0'.toNat = 48 := rfl
      rw [digitValue, hzero]
      omega
    have := Nat.mul_le_mul_left (10 ^ cs.length) hdigit
    have := ih hcs
    rw [digitsValue_cons, List.length_cons, Nat.pow_succ]
    omega

@[simp] theorem digitsValue_zeros (k : Nat) : digitsValue (List.replicate k '0') = 0 := by
  simp [digitsValue_eq]

theorem length_digits_le_iff {n k : Nat} (hk : 0 < k) : (digits n).length ≤ k ↔ n < 10 ^ k :=
  Nat.length_toDigits_le_iff (by decide) hk

/-- Only zero has a zero in front. -/
theorem head_digits_ne {n : Nat} (hn : 0 < n) : (digits n).head? ≠ some '0' := by
  induction n using Nat.strongRecOn with
  | _ n ih =>
    rw [digits, Nat.toDigits_eq_if (by decide)]
    split
    · rename_i hlt
      have key : ∀ k : Fin 10, 0 < k.val → [Nat.digitChar k.val].head? ≠ some '0' := by decide
      exact key ⟨n, hlt⟩ hn
    · rename_i hge
      have hd := ih (n / 10) (by omega) (by omega)
      rw [digits] at hd
      cases h : Nat.toDigits 10 (n / 10) with
      | nil => exact absurd h Nat.toDigits_ne_nil
      | cons c cs => rwa [h] at hd

/-! ## A run of digits -/

/-- No digit stands in front. -/
def NoDigit (cs : List Char) : Prop := ∀ c, cs.head? = some c → isDigit c = false

theorem noDigit_nil : NoDigit [] := by
  intro c hc
  cases hc

theorem noDigit_cons {c : Char} {cs : List Char} (h : isDigit c = false) : NoDigit (c :: cs) := by
  intro d hd
  cases hd
  exact h

/-- The digits in front are all of those before something else. -/
theorem takeWhile_digits {ds cs : List Char} (hds : ∀ c ∈ ds, isDigit c = true) (hcs : NoDigit cs) :
    (ds ++ cs).takeWhile isDigit = ds ∧ (ds ++ cs).dropWhile isDigit = cs := by
  rw [List.takeWhile_append_of_pos hds, List.dropWhile_append_of_pos hds]
  cases cs with
  | nil => simp
  | cons c cs =>
    have hc := hcs c rfl
    simp [hc]

/-! ## Filled up with zeros -/

theorem toList_padded (width n : Nat) :
    (padded width n).toList = List.replicate (width - (digits n).length) '0' ++ digits n := by
  rw [padded, String.toList_ofList, List.leftpad]

theorem isDigit_of_mem_padded {width n : Nat} {c : Char} (h : c ∈ (padded width n).toList) :
    isDigit c = true := by
  rw [toList_padded, List.mem_append] at h
  rcases h with h | h
  · rw [List.eq_of_mem_replicate h]
    rfl
  · exact isDigit_of_mem_digits h

@[simp] theorem digitsValue_padded (width n : Nat) : digitsValue (padded width n).toList = n := by
  rw [toList_padded, digitsValue_append, digitsValue_zeros, digitsValue_digits, Nat.mul_zero,
    Nat.zero_add]

theorem length_padded {width n : Nat} (hw : 0 < width) (h : n < 10 ^ width) :
    (padded width n).toList.length = width := by
  have := (length_digits_le_iff hw).2 h
  rw [toList_padded, List.length_append, List.length_replicate]
  omega

theorem le_length_padded (width n : Nat) : width ≤ (padded width n).toList.length := by
  rw [toList_padded, List.length_append, List.length_replicate]
  omega

end Transact.Text
