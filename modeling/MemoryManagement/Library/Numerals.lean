import Mathlib.Data.Nat.Digits.Defs

/-!
# Numerals

The numeral of a number in a base has the most significant digit first and at least one digit. A program
that divides by the base again and again gets it from its end (`numeral_of_div_ne_zero`), and reading it
gives the number back (`valueOf_numeral`).
-/

set_option autoImplicit false

namespace MemoryManagement.Library.Numerals

/-- The digits of a number, the most significant one first. -/
def numeral (b n : ℕ) : List ℕ := if n = 0 then [0] else (Nat.digits b n).reverse

/-- The number that digits stand for. -/
def valueOf (b : ℕ) (digits : List ℕ) : ℕ := digits.foldl (fun v d => v * b + d) 0

/-- More digits do not make a number smaller. -/
theorem le_foldl {b : ℕ} (hb : 0 < b) (digits : List ℕ) (v : ℕ) : v ≤ digits.foldl (fun v d => v * b + d) v := by
  induction digits generalizing v with
  | nil => exact Nat.le_refl v
  | cons d digits ih =>
      calc
        v ≤ v * b := Nat.le_mul_of_pos_right v hb
        _ ≤ v * b + d := Nat.le_add_right _ d
        _ ≤ _ := ih (v * b + d)

section Numeral

variable {b n : ℕ} (hb : 1 < b)
include hb

/-- The number has one digit. -/
theorem numeral_of_div_eq_zero (hn : n / b = 0) : numeral b n = [n % b] := by
  rw [numeral]
  split
  · rename_i hzero
    rw [hzero, Nat.zero_mod]
  · rename_i hpos
    rw [Nat.digits_def' hb (Nat.pos_of_ne_zero hpos), hn, Nat.digits_zero]
    rfl

/-- The last digit comes after those of the quotient. -/
theorem numeral_of_div_ne_zero (hn : n / b ≠ 0) : numeral b n = numeral b (n / b) ++ [n % b] := by
  have hpos : n ≠ 0 := by
    rintro rfl
    exact hn (Nat.zero_div b)
  rw [numeral, numeral, if_neg hpos, if_neg hn, Nat.digits_def' hb (Nat.pos_of_ne_zero hpos),
    List.reverse_cons]

/-- Induction over the quotients. -/
theorem div_induction {motive : ℕ → Prop} (last : ∀ n, n / b = 0 → motive n)
    (step : ∀ n, n / b ≠ 0 → motive (n / b) → motive n) (n : ℕ) : motive n := by
  induction n using Nat.strongRecOn with
  | ind n ih =>
      by_cases hn : n / b = 0
      · exact last n hn
      · apply step n hn
        apply ih
        apply Nat.div_lt_self _ hb
        exact Nat.pos_of_ne_zero fun hzero => hn (by rw [hzero, Nat.zero_div])

theorem numeral_lt_base {d : ℕ} (hd : d ∈ numeral b n) : d < b := by
  have hmod : ∀ m, m % b < b := fun m => Nat.mod_lt m (Nat.zero_lt_of_lt hb)
  induction n using div_induction hb with
  | last n hn =>
      rw [numeral_of_div_eq_zero hb hn, List.mem_singleton] at hd
      rw [hd]
      exact hmod n
  | step n hn ih =>
      rw [numeral_of_div_ne_zero hb hn, List.mem_append, List.mem_singleton] at hd
      rcases hd with hd | rfl
      · exact ih hd
      · exact hmod n

theorem length_numeral_pos : 0 < (numeral b n).length := by
  by_cases hn : n / b = 0
  · rw [numeral_of_div_eq_zero hb hn]
    exact Nat.one_pos
  · rw [numeral_of_div_ne_zero hb hn, List.length_append]
    exact Nat.succ_pos _

theorem length_numeral_le {k : ℕ} (hn : n < b ^ (k + 1)) : (numeral b n).length ≤ k + 1 := by
  induction k generalizing n with
  | zero =>
      rw [Nat.zero_add, Nat.pow_one] at hn
      rw [numeral_of_div_eq_zero hb (Nat.div_eq_of_lt hn)]
      exact Nat.le_refl 1
  | succ k ih =>
      by_cases hzero : n / b = 0
      · rw [numeral_of_div_eq_zero hb hzero]
        exact Nat.succ_le_succ (Nat.zero_le _)
      · have hdiv : n / b < b ^ (k + 1) := Nat.div_lt_of_lt_mul (by rw [← Nat.pow_succ']; exact hn)
        rw [numeral_of_div_ne_zero hb hzero, List.length_append]
        exact Nat.succ_le_succ (ih hdiv)

theorem valueOf_numeral : valueOf b (numeral b n) = n := by
  induction n using div_induction hb with
  | last n hn =>
      rw [numeral_of_div_eq_zero hb hn]
      show 0 * b + n % b = n
      rw [Nat.zero_mul, Nat.zero_add]
      exact Nat.mod_eq_of_lt (Nat.lt_of_div_eq_zero (Nat.zero_lt_of_lt hb) hn)
  | step n hn ih =>
      rw [numeral_of_div_ne_zero hb hn, valueOf, List.foldl_append]
      show valueOf b (numeral b (n / b)) * b + n % b = n
      rw [ih]
      exact Nat.div_add_mod' n b

omit hb in
/-- Leading zeros do not count. -/
theorem valueOf_zeros (k : ℕ) (digits : List ℕ) :
    valueOf b (List.replicate k 0 ++ digits) = valueOf b digits := by
  have hzero : ∀ k, (List.replicate k 0).foldl (fun v d => v * b + d) 0 = 0 := by
    intro k
    induction k with
    | zero => rfl
    | succ k ih =>
        rw [List.replicate_succ, List.foldl_cons, Nat.zero_mul]
        exact ih
  rw [valueOf, List.foldl_append, hzero, ← valueOf]

end Numeral

end MemoryManagement.Library.Numerals
