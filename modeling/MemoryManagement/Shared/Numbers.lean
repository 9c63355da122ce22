import MemoryManagement.Shared.Directives
import Mathlib.Data.Nat.Bitwise

/-!
# Numbers are printed faithfully

What a directive for a number prints can be read back, and it is as wide as the directive asks for, unless
the difference of the width and of what is printed does not fit the `int` that it is stored in
(`printer_vprintf_number`).
-/

set_option autoImplicit false

namespace MemoryManagement.Shared

open MemoryManagement.Library.Numerals

/-! ## Flags -/

theorem and_flag (m k : Nat) : m &&& 1 <<< k ≠ 0 ↔ m.testBit k = true := by
  rw [Nat.one_shiftLeft, Nat.and_two_pow]
  cases m.testBit k with
  | false => simp
  | true => simp

theorem testBit_flag (k j : Nat) : (1 <<< k).testBit j = decide (k = j) := by
  rw [Nat.one_shiftLeft, Nat.testBit_two_pow]

/-- A flag is set if and only if its character is among the flags. -/
theorem testBit_flagMask {s : List UInt8} (hs : ∀ c ∈ s, c ∈ flagChars) (m : Nat) {f : UInt8}
    (hf : f ∈ flagChars) : (flagMask m s).testBit ((strchr f flagChars).getD 0) =
      (m.testBit ((strchr f flagChars).getD 0) || decide (f ∈ s)) := by
  have hall : ∀ c ∈ flagChars, (flagChars.all fun f =>
      decide ((strchr c flagChars).getD 0 = (strchr f flagChars).getD 0 ↔ f = c)) = true :=
    forall_mem_of_all (by decide)
  have hindex : ∀ c ∈ flagChars, (strchr c flagChars).getD 0 = (strchr f flagChars).getD 0 ↔ f = c :=
    fun c hc => forall_mem_of_all (hall c hc) f hf
  induction s generalizing m with
  | nil => rw [flagMask, decide_eq_false List.not_mem_nil, Bool.or_false]
  | cons c s ih =>
      obtain ⟨hc, hs⟩ := List.forall_mem_cons.1 hs
      rw [flagMask, ih hs, Nat.testBit_or, testBit_flag, decide_eq_decide.2 (hindex c hc), Bool.or_assoc,
        ← Bool.decide_or, decide_eq_decide.2 List.mem_cons.symm]

/-- The other bits are not changed. -/
theorem testBit_flagMask_of_le {s : List UInt8} (hs : ∀ c ∈ s, c ∈ flagChars) (m : Nat) {k : Nat} (hk : 5 ≤ k) :
    (flagMask m s).testBit k = m.testBit k := by
  have hindex : ∀ c ∈ flagChars, (strchr c flagChars).getD 0 < 5 := forall_mem_of_all (by decide)
  induction s generalizing m with
  | nil => rfl
  | cons c s ih =>
      obtain ⟨hc, hs⟩ := List.forall_mem_cons.1 hs
      have hne : ¬(strchr c flagChars).getD 0 = k := fun he => absurd (hindex c hc) (by omega)
      rw [flagMask, ih hs, Nat.testBit_or, testBit_flag, decide_eq_false hne, Bool.or_false]

/-! ## What is to be printed -/

namespace Directive

variable (dir : Directive)

def base : Nat :=
  match dir.specifier with
  | .d | .i | .u => 10
  | .x | .X | .p => 16

/-- The sign of a number, or its base. -/
def prefixText (x : Int) : List UInt8 :=
  match dir.specifier with
  | .d | .i =>
      if x < 0 then [ch '-']
      else if ch '+' ∈ dir.flags then [ch '+']
      else if ch ' ' ∈ dir.flags then [ch ' ']
      else []
  | .u => []
  | .x => if ch '#' ∈ dir.flags ∧ x ≠ 0 then [ch '0', ch 'x'] else []
  | .X => if ch '#' ∈ dir.flags ∧ x ≠ 0 then [ch '0', ch 'X'] else []
  | .p => [ch '0', ch 'x']

end Directive

/-- The number that is read from a sign, or a base, and digits. -/
def parse (base : Nat) (sign digits : List UInt8) : Option Int :=
  if digits.all fun c => digitOf c < base then
    if sign = [ch '-'] then some (-(number base digits : Int))
    else if sign ∈ [[], [ch '+'], [ch ' ']] ∨ base = 16 ∧ sign ∈ [[ch '0', ch 'x'], [ch '0', ch 'X']] then
      some (number base digits)
    else none
  else none

/-- The text for a number: spaces on one side, the sign or the base, zeros and digits, as wide as it has to be,
and from which the number can be read. -/
def Directive.Faithful (dir : Directive) (width x : Int) (text : List UInt8) : Prop :=
  ∃ (left zeros right : Nat) (digits : List UInt8),
    text = List.replicate left (ch ' ') ++ dir.prefixText x ++ List.replicate zeros (ch '0') ++ digits ++
      List.replicate right (ch ' ') ∧
    (text.length : Int) = max width ((dir.prefixText x).length + zeros + digits.length : Nat) ∧
    (if ch '-' ∈ dir.flags then left = 0 else right = 0) ∧
    parse dir.base (dir.prefixText x) (List.replicate zeros (ch '0') ++ digits) = some x

/-! ## The conversions -/

theorem toInt_mem (x : Int) : -2 ^ 31 ≤ toInt x ∧ toInt x < 2 ^ 31 := by
  constructor
  · exact Int.le_bmod (by decide)
  · exact Int.bmod_lt (by decide)

/-- A number below the smallest `int` wraps around. -/
theorem toInt_of_lt {x : Int} (hlow : -2 ^ 32 - 2 ^ 31 ≤ x) (hhigh : x < -2 ^ 31) : toInt x = x + 2 ^ 32 := by
  have hwrap : toInt (x + 2 ^ 32) = toInt x := Int.add_bmod_right x (2 ^ 32)
  rw [← hwrap]
  apply toInt_of_mem
  · omega
  · omega

theorem toLong_mem (x : Int) : -2 ^ 63 ≤ toLong x ∧ toLong x < 2 ^ 63 := by
  constructor
  · exact Int.le_bmod (by decide)
  · exact Int.bmod_lt (by decide)

/-- The number that is left to be printed behind the sign, also for the smallest `long`. -/
theorem unsigned_of_negative {x : Int} (hlow : -2 ^ 63 ≤ x) (hneg : x < 0) :
    (toLong (-x) % 2 ^ 64).toNat = x.natAbs := by
  have hmod : toLong (-x) % 2 ^ 64 = -x % 2 ^ 64 := Int.bmod_emod
  rw [hmod]
  omega

/-- What the switch leaves for a number `x`. -/
structure Describes (dir : Directive) (x : Int) (conv : Conversion) : Prop where
  ok : ConversionOk conv
  base : conv.base.natAbs = dir.base
  num : conv.num = x.natAbs
  numeric : conv.flags &&& FLAG_NUMERIC ≠ 0
  leftJustify : conv.flags &&& FLAG_LEFTJUSTIFY ≠ 0 ↔ ch '-' ∈ dir.flags
  prefixText : prefixOf conv = dir.prefixText x
  negative : x < 0 → dir.prefixText x = [ch '-']

theorem prefixOf_signed {conv : Conversion} (hnumeric : conv.flags.testBit 5 = true)
    (hsigned : conv.flags.testBit 6 = true) :
    prefixOf conv = if conv.flags.testBit 7 then [ch '-'] else if conv.flags.testBit 4 then [ch '+']
      else if conv.flags.testBit 3 then [ch ' '] else [] := by
  rw [prefixOf]
  simp only [and_flag]
  rw [if_pos ⟨hnumeric, hsigned⟩]

theorem prefixOf_unsigned {conv : Conversion} (hnumeric : conv.flags.testBit 5 = true)
    (hsigned : conv.flags.testBit 6 = false) :
    prefixOf conv = if conv.flags.testBit 0 = true ∧ (conv.base = 16 ∨ conv.base = -16) ∧
        (conv.num ≠ 0 ∨ conv.flags.testBit 8 = true) then
      if conv.base = -16 then [ch '0', ch 'x'] else [ch '0', ch 'X'] else [] := by
  rw [prefixOf]
  simp only [and_flag]
  rw [if_neg fun h => absurd (h.2.symm.trans hsigned) (by decide)]
  congr 1
  exact propext (and_iff_right hnumeric)

section Flags

variable (dir : Directive)

theorem testBit_alt : (flagMask 0 dir.flags).testBit 0 = decide (ch '#' ∈ dir.flags) :=
  testBit_flagMask dir.isFlag 0 (show ch '#' ∈ flagChars by decide)

theorem testBit_leftJustify : (flagMask 0 dir.flags).testBit 2 = decide (ch '-' ∈ dir.flags) :=
  testBit_flagMask dir.isFlag 0 (show ch '-' ∈ flagChars by decide)

theorem testBit_spacePositive : (flagMask 0 dir.flags).testBit 3 = decide (ch ' ' ∈ dir.flags) :=
  testBit_flagMask dir.isFlag 0 (show ch ' ' ∈ flagChars by decide)

theorem testBit_plusPositive : (flagMask 0 dir.flags).testBit 4 = decide (ch '+' ∈ dir.flags) :=
  testBit_flagMask dir.isFlag 0 (show ch '+' ∈ flagChars by decide)

/-- The flags that the switch adds. -/
theorem testBit_added {added k : Nat} (hk : 5 ≤ k) :
    (flagMask 0 dir.flags ||| added).testBit k = added.testBit k := by
  rw [Nat.testBit_or, testBit_flagMask_of_le dir.isFlag 0 hk, Nat.zero_testBit, Bool.false_or]

theorem testBit_kept {added k : Nat} (hk : added.testBit k = false) :
    (flagMask 0 dir.flags ||| added).testBit k = (flagMask 0 dir.flags).testBit k := by
  rw [Nat.testBit_or, hk, Bool.or_false]

theorem numeric_of_added {added : Nat} (h : added.testBit 5 = true) :
    (flagMask 0 dir.flags ||| added) &&& FLAG_NUMERIC ≠ 0 := by
  rw [and_flag, testBit_added dir (Nat.le_refl 5), h]

theorem leftJustify_of_added {added : Nat} (h : added.testBit 2 = false) :
    (flagMask 0 dir.flags ||| added) &&& FLAG_LEFTJUSTIFY ≠ 0 ↔ ch '-' ∈ dir.flags := by
  rw [and_flag, testBit_kept dir h, testBit_leftJustify, decide_eq_true_iff]

end Flags

section Described

variable {dir : Directive} (color : Int) (a : Arg)

theorem describes_signed (h : dir.specifier = .d ∨ dir.specifier = .i) :
    Describes dir (if dir.long then a.long else a.int) (formatSigned (flagMask 0 dir.flags) color dir.long a) := by
  obtain ⟨x, hx⟩ : ∃ x, x = if dir.long then a.long else a.int := ⟨_, rfl⟩
  have hrange : -2 ^ 63 ≤ x ∧ x < 2 ^ 63 := by
    have hint := toInt_mem a.word
    rw [hx]
    split
    · exact toLong_mem a.word
    · show -2 ^ 63 ≤ toInt a.word ∧ toInt a.word < 2 ^ 63
      omega
  have hbase : dir.base = 10 := by
    rw [Directive.base]
    rcases h with h | h <;> rw [h]
  have hsign : dir.prefixText x = if x < 0 then [ch '-'] else if ch '+' ∈ dir.flags then [ch '+']
      else if ch ' ' ∈ dir.flags then [ch ' '] else [] := by
    rw [Directive.prefixText]
    rcases h with h | h <;> rw [h]
  rw [formatSigned, ← hx]
  -- `FLAG_NEGATIVE` is set from the sign, whatever the flags of the directive
  by_cases hneg : x < 0
  · rw [if_pos hneg, if_pos (by decide)]
    have hnum := unsigned_of_negative hrange.1 hneg
    refine ⟨⟨Or.inl rfl, ?_, List.not_mem_nil⟩, hbase.symm, hnum, ?_, ?_, ?_, fun hx => ?_⟩
    · simp only [hnum]
      omega
    · exact numeric_of_added dir (by decide)
    · exact leftJustify_of_added dir (by decide)
    · rw [hsign, if_pos hneg, prefixOf_signed (testBit_added dir (by decide)) (testBit_added dir (by decide))]
      exact if_pos (testBit_added dir (by decide))
    · rw [hsign, if_pos hx]
  · rw [if_neg hneg, if_neg (by decide)]
    have hnum : (x % 2 ^ 64).toNat = x.natAbs := by omega
    refine ⟨⟨Or.inl rfl, ?_, List.not_mem_nil⟩, hbase.symm, hnum, ?_, ?_, ?_, fun hx => ?_⟩
    · simp only [hnum]
      omega
    · exact numeric_of_added dir (by decide)
    · exact leftJustify_of_added dir (by decide)
    · -- of the three flags that choose a prefix, the one for negative numbers is off
      have hnot : (flagMask 0 dir.flags ||| (FLAG_NUMERIC ||| FLAG_SIGNED ||| 0)).testBit 7 = false :=
        testBit_added dir (by decide)
      have hplus : (flagMask 0 dir.flags ||| (FLAG_NUMERIC ||| FLAG_SIGNED ||| 0)).testBit 4 = _ :=
        (testBit_kept dir (by decide)).trans (testBit_plusPositive dir)
      have hspace : (flagMask 0 dir.flags ||| (FLAG_NUMERIC ||| FLAG_SIGNED ||| 0)).testBit 3 = _ :=
        (testBit_kept dir (by decide)).trans (testBit_spacePositive dir)
      rw [hsign, if_neg hneg, prefixOf_signed (testBit_added dir (by decide)) (testBit_added dir (by decide))]
      simp only [hnot, hplus, hspace, decide_eq_true_iff, Bool.false_eq_true, if_false]
    · exact absurd hx hneg

theorem describes_unsigned {base : Int} (h : dir.specifier = .u ∧ base = 10 ∨ dir.specifier = .x ∧ base = -16 ∨
    dir.specifier = .X ∧ base = 16) :
    Describes dir (if dir.long then a.unsignedLong else a.unsigned : Nat)
      (formatUnsigned (flagMask 0 dir.flags) base color dir.long a) := by
  have hbase : BaseOk base := by
    rcases h with ⟨-, h⟩ | ⟨-, h⟩ | ⟨-, h⟩
    · exact Or.inl h
    · exact Or.inr (Or.inr h)
    · exact Or.inr (Or.inl h)
  obtain ⟨n, hn⟩ : ∃ n, n = if dir.long then a.unsignedLong else a.unsigned := ⟨_, rfl⟩
  have hok : ConversionOk (formatUnsigned (flagMask 0 dir.flags) base color dir.long a) :=
    formatUnsigned_ok hbase dir.long a
  rw [formatUnsigned, ← hn] at hok ⊢
  refine ⟨hok, ?_, rfl, ?_, ?_, ?_, fun hx => absurd hx (Int.not_lt.2 (Int.natCast_nonneg n))⟩
  · rw [Directive.base]
    rcases h with ⟨h, rfl⟩ | ⟨h, rfl⟩ | ⟨h, rfl⟩ <;> rw [h] <;> rfl
  · exact numeric_of_added dir (by decide)
  · exact leftJustify_of_added dir (by decide)
  · have hzero : ((n : Int) ≠ 0) ↔ n ≠ 0 := by omega
    have halt : (flagMask 0 dir.flags ||| FLAG_NUMERIC).testBit 0 = _ :=
      (testBit_kept dir (by decide)).trans (testBit_alt dir)
    have halt2 : (flagMask 0 dir.flags ||| FLAG_NUMERIC).testBit 8 = false := testBit_added dir (by decide)
    rw [prefixOf_unsigned (testBit_added dir (by decide)) (testBit_added dir (by decide)), Directive.prefixText]
    simp only [halt, halt2, decide_eq_true_iff, Bool.false_eq_true, or_false]
    rcases h with ⟨h, rfl⟩ | ⟨h, rfl⟩ | ⟨h, rfl⟩
    · rw [h]
      exact if_neg fun hbase => absurd hbase.2.1 (by decide)
    · rw [h]
      simp only [hzero, or_true, true_and, if_true]
    · rw [h]
      simp only [hzero, true_or, true_and]
      rfl

theorem describes_pointer (h : dir.specifier = .p) :
    Describes dir a.unsignedLong (formatPointer (flagMask 0 dir.flags) color a) := by
  rw [formatPointer]
  refine ⟨⟨Or.inr (Or.inr rfl), Nat.mod_lt _ (Nat.two_pow_pos 64), List.not_mem_nil⟩, ?_, rfl, ?_, ?_, ?_,
    fun hx => absurd hx (Int.not_lt.2 (Int.natCast_nonneg _))⟩
  · rw [Directive.base, h]
    rfl
  · exact numeric_of_added dir (by decide)
  · exact leftJustify_of_added dir (by decide)
  · have halt : (flagMask 0 dir.flags ||| (FLAG_ALT ||| FLAG_ALT2 ||| FLAG_NUMERIC)).testBit 0 = true := by
      rw [Nat.testBit_or]
      exact Bool.or_true _
    rw [prefixOf_unsigned (testBit_added dir (by decide)) (testBit_added dir (by decide)), Directive.prefixText, h]
    exact if_pos ⟨halt, Or.inr rfl, Or.inr (testBit_added dir (by decide))⟩

/-- The switch at a directive. -/
theorem Directive.describes (dir : Directive) (color : Int) (val : Nat → Arg) (k : Nat) :
    Describes dir (dir.argument val k) (dir.specifier.conversion (flagMask 0 dir.flags) color dir.long
      (val (k + dir.width.slots + dir.precisionSlots))) := by
  rw [Directive.argument]
  cases h : dir.specifier with
  | d => exact describes_signed color _ (Or.inl h)
  | i => exact describes_signed color _ (Or.inr h)
  | u =>
      simp only [← Nat.cast_ite]
      exact describes_unsigned color _ (Or.inl ⟨h, rfl⟩)
  | x =>
      simp only [← Nat.cast_ite]
      exact describes_unsigned color _ (Or.inr (Or.inl ⟨h, rfl⟩))
  | X =>
      simp only [← Nat.cast_ite]
      exact describes_unsigned color _ (Or.inr (Or.inr ⟨h, rfl⟩))
  | p => exact describes_pointer color _ h

end Described

/-! ## Digits -/

theorem digitOf_digit : ∀ d < 16, digitOf (lowerDigits.getD d 0) = d ∧ digitOf (upperDigits.getD d 0) = d := by
  decide

theorem map_digitOf {base : Int} (h : BaseOk base) (num : Nat) :
    (numberChars base num).map digitOf = numeral base.natAbs num := by
  rw [numberChars, List.map_map]
  have hdigit : ∀ d ∈ numeral base.natAbs num,
      digitOf ((if base < 0 then lowerDigits else upperDigits).getD d 0) = d := by
    intro d hd
    have hlt := numeral_lt_base h.one_lt hd
    have hle : base.natAbs ≤ 16 := by
      rcases h with rfl | rfl | rfl <;> decide
    obtain ⟨hlower, hupper⟩ := digitOf_digit d (by omega)
    split
    · exact hlower
    · exact hupper
  exact (List.map_congr_left hdigit).trans (List.map_id _)

theorem number_zeros (base z : Nat) (s : List UInt8) :
    number base (List.replicate z (ch '0') ++ s) = number base s := by
  rw [number, List.map_append, List.map_replicate]
  exact valueOf_zeros z (s.map digitOf)

section Text

variable {dir : Directive} {x : Int} {conv : Conversion} (h : Describes dir x conv)
include h

theorem Describes.digits_lt {c : UInt8} (hc : c ∈ numberChars conv.base conv.num) : digitOf c < dir.base := by
  have hmem := List.mem_map_of_mem (f := digitOf) hc
  rw [map_digitOf h.ok.base] at hmem
  rw [← h.base]
  exact numeral_lt_base h.ok.base.one_lt hmem

omit h in
/-- What is before a number that is not negative. -/
theorem Directive.prefixText_of_nonneg (dir : Directive) {x : Int} (hx : 0 ≤ x) :
    dir.prefixText x ≠ [ch '-'] ∧ (dir.prefixText x ∈ [[], [ch '+'], [ch ' ']] ∨
      dir.base = 16 ∧ dir.prefixText x ∈ [[ch '0', ch 'x'], [ch '0', ch 'X']]) := by
  have hneg : ¬x < 0 := Int.not_lt.2 hx
  rw [Directive.prefixText, Directive.base]
  cases dir.specifier with
  | d =>
      simp only [if_neg hneg]
      split_ifs <;> decide
  | i =>
      simp only [if_neg hneg]
      split_ifs <;> decide
  | u =>
      simp only
      decide
  | x =>
      simp only
      split_ifs <;> decide
  | X =>
      simp only
      split_ifs <;> decide
  | p =>
      simp only
      decide

/-- The number can be read from its sign, or its base, and its digits. -/
theorem Describes.parse (z : Nat) :
    parse dir.base (dir.prefixText x) (List.replicate z (ch '0') ++ numberChars conv.base conv.num) = some x := by
  have hdigits : (List.replicate z (ch '0') ++ numberChars conv.base conv.num).all
      (fun c => digitOf c < dir.base) = true := by
    rw [List.all_eq_true]
    intro c hc
    rw [decide_eq_true_iff]
    rcases List.mem_append.1 hc with hc | hc
    · rw [List.eq_of_mem_replicate hc, ← h.base]
      exact Nat.lt_trans Nat.one_pos h.ok.base.one_lt
    · exact h.digits_lt hc
  have hnumber : number dir.base (List.replicate z (ch '0') ++ numberChars conv.base conv.num) = x.natAbs := by
    rw [number_zeros, number, map_digitOf h.ok.base, h.base, ← h.num, ← h.base]
    exact valueOf_numeral h.ok.base.one_lt
  rw [Shared.parse, if_pos hdigits, hnumber]
  rcases Int.lt_or_le x 0 with hneg | hnonneg
  · rw [if_pos (h.negative hneg)]
    exact congrArg some (by omega)
  · obtain ⟨hminus, hother⟩ := dir.prefixText_of_nonneg hnonneg
    rw [if_neg hminus, if_pos hother]
    exact congrArg some (by omega)

/-! ### The text -/

omit h in
theorem Directive.length_prefixText (dir : Directive) (x : Int) : (dir.prefixText x).length ≤ 2 := by
  rw [Directive.prefixText]
  cases dir.specifier with
  | d =>
      simp only
      split_ifs <;> decide
  | i =>
      simp only
      split_ifs <;> decide
  | u => exact Nat.zero_le 2
  | x =>
      simp only
      split_ifs <;> decide
  | X =>
      simp only
      split_ifs <;> decide
  | p => exact Nat.le_refl 2

/-- The characters for a number without any spaces, as many as its precision asks for. -/
def Directive.bodyLength (dir : Directive) (precision x : Int) : Int :=
  (dir.prefixText x).length + max ((numeral dir.base x.natAbs).length : Int) precision

theorem Describes.length_digits :
    (numberChars conv.base conv.num).length = (numeral dir.base x.natAbs).length := by
  rw [length_numberChars, h.base, h.num]

theorem Describes.dataText_eq : dataText conv = numberChars conv.base conv.num := if_pos h.numeric

theorem Describes.lenOf_eq (precision : Int) :
    lenOf conv precision (dataText conv) = (numeral dir.base x.natAbs).length := by
  have hle := length_numberChars_le h.ok.base h.ok.num
  rw [lenOf, if_neg fun hs => h.numeric hs.2, h.dataText_eq, ← h.length_digits]
  apply toInt_of_mem
  · omega
  · omega

/-- The zeros, unless they fill the width. -/
theorem Describes.zeros {width precision : Int} (hwidth : width < 2 ^ 31) (hprecision : -1 ≤ precision) :
    ∃ z : Nat, zerosOf conv width precision (lenOf conv precision (dataText conv)) (prefixOf conv).length = z ∧
      ((dir.prefixText x).length + z + (numberChars conv.base conv.num).length = dir.bodyLength precision x ∨
        dir.bodyLength precision x < width ∧
          (dir.prefixText x).length + z + (numberChars conv.base conv.num).length = width) := by
  have hlength := h.length_digits
  have hle := length_numberChars_le h.ok.base h.ok.num
  rw [hlength] at hle
  rw [h.lenOf_eq, h.prefixText, zerosOf, Directive.bodyLength, hlength]
  by_cases hp : 0 ≤ precision
  · rw [if_pos ⟨h.numeric, hp⟩]
    by_cases hless : ((numeral dir.base x.natAbs).length : Int) < precision
    · rw [if_pos hless]
      exact ⟨(precision - (numeral dir.base x.natAbs).length).toNat,
        (Int.toNat_of_nonneg (by omega)).symm, Or.inl (by omega)⟩
    · rw [if_neg hless]
      exact ⟨0, rfl, Or.inl (by omega)⟩
  · rw [if_neg fun hs => hp hs.2]
    by_cases hfill : conv.flags &&& FLAG_NUMERIC ≠ 0 ∧ conv.flags &&& FLAG_ZERO ≠ 0 ∧
        conv.flags &&& FLAG_LEFTJUSTIFY = 0 ∧
        ((numeral dir.base x.natAbs).length : Int) + (dir.prefixText x).length < width
    · have hroom := hfill.2.2.2
      rw [if_pos hfill, toInt_of_mem (by omega) (by omega)]
      exact ⟨(width - (numeral dir.base x.natAbs).length - (dir.prefixText x).length).toNat, by omega,
        Or.inr ⟨by omega, by omega⟩⟩
    · rw [if_neg hfill]
      exact ⟨0, rfl, Or.inl (by omega)⟩

/-- The text for a number. -/
theorem Describes.textOf_eq {width precision : Int} (hwidth : width < 2 ^ 31) (hprecision : -1 ≤ precision) :
    ∃ z : Nat, ((dir.prefixText x).length + z + (numberChars conv.base conv.num).length =
          dir.bodyLength precision x ∨
        dir.bodyLength precision x < width ∧
          (dir.prefixText x).length + z + (numberChars conv.base conv.num).length = width) ∧
      ∃ left right : Nat, (if ch '-' ∈ dir.flags then left = 0 else right = 0) ∧
        left + right =
          (toInt (width - ((dir.prefixText x).length + z + (numberChars conv.base conv.num).length))).toNat ∧
        textOf conv width precision = List.replicate left (ch ' ') ++ dir.prefixText x ++
          List.replicate z (ch '0') ++ numberChars conv.base conv.num ++ List.replicate right (ch ' ') := by
  obtain ⟨z, hz, hlength⟩ := h.zeros hwidth hprecision
  have hpadding : paddingOf conv width precision =
      toInt (width - ((dir.prefixText x).length + z + (numberChars conv.base conv.num).length)) := by
    rw [paddingOf, hz, h.lenOf_eq, h.prefixText, h.length_digits]
    congr 2
    omega
  have hbody : bodyOf conv width precision =
      dir.prefixText x ++ List.replicate z (ch '0') ++ numberChars conv.base conv.num := by
    rw [bodyOf, hz, h.lenOf_eq, h.prefixText, h.dataText_eq, Int.toNat_natCast, Int.toNat_natCast,
      ← h.length_digits, List.take_length]
  refine ⟨z, hlength, ?_⟩
  rw [← hpadding, textOf, hbody]
  by_cases hleft : ch '-' ∈ dir.flags
  · have hflag := h.leftJustify.2 hleft
    rw [if_neg hflag]
    refine ⟨0, (paddingOf conv width precision).toNat, ?_, Nat.zero_add _, ?_⟩
    · rw [if_pos hleft]
    · rw [Nat.sub_zero]
      simp only [List.append_assoc]
  · have hflag : conv.flags &&& FLAG_LEFTJUSTIFY = 0 := not_not.1 fun hflag => hleft (h.leftJustify.1 hflag)
    rw [if_pos hflag]
    refine ⟨(paddingOf conv width precision).toNat, 0, ?_, Nat.add_zero _, ?_⟩
    · rw [if_neg hleft]
    · rw [Nat.sub_self]
      simp only [List.append_assoc]

omit h in
theorem length_text (left z right : Nat) (sign digits : List UInt8) :
    (List.replicate left (ch ' ') ++ sign ++ List.replicate z (ch '0') ++ digits ++
      List.replicate right (ch ' ')).length = left + sign.length + z + digits.length + right := by
  simp only [List.length_append, List.length_replicate]

omit h in
/-- The spaces are the padding, and what there are in front of the number. -/
theorem count_text (left z right : Nat) (sign digits : List UInt8) (hdigits : ch ' ' ∉ digits) :
    (List.replicate left (ch ' ') ++ sign ++ List.replicate z (ch '0') ++ digits ++
      List.replicate right (ch ' ')).count (ch ' ') = left + sign.count (ch ' ') + right := by
  have hzeros : (List.replicate z (ch '0')).count (ch ' ') = 0 := by
    rw [List.count_replicate]
    rfl
  rw [List.count_append, List.count_append, List.count_append, List.count_append, List.count_replicate_self,
    List.count_replicate_self, hzeros, List.count_eq_zero.2 hdigits]
  omega

omit h in
theorem Directive.base_le (dir : Directive) : dir.base ≤ 16 := by
  rw [Directive.base]
  cases dir.specifier <;> decide

omit h in
/-- What can be read has no spaces. -/
theorem not_mem_of_parse {sign digits : List UInt8} (hparse : Shared.parse dir.base sign digits = some x) :
    ch ' ' ∉ digits := by
  intro hmem
  rw [Shared.parse] at hparse
  split at hparse
  · rename_i hall
    have hlt : 16 < dir.base := of_decide_eq_true (List.all_eq_true.1 hall (ch ' ') hmem)
    exact absurd hlt (Nat.not_lt.2 dir.base_le)
  · cases hparse

/-- The text is right unless the rest of the width wraps around. -/
theorem Describes.faithful_iff {width precision : Int} (hlow : -2 ^ 31 ≤ width) (hwidth : width < 2 ^ 31)
    (hprecision : -1 ≤ precision) (hhigh : precision < 2 ^ 31) :
    dir.Faithful width x (textOf conv width precision) ↔
      dir.bodyLength precision x ≤ width + 2 ^ 31 ∨ width + 2 ^ 32 ≤ dir.bodyLength precision x := by
  obtain ⟨z, hlength, left, right, hside, hpadding, htext⟩ := h.textOf_eq hwidth hprecision
  have hbody : dir.bodyLength precision x < 2 ^ 31 + 2 := by
    have hsign := dir.length_prefixText x
    have hdigits := length_numberChars_le h.ok.base h.ok.num
    rw [h.length_digits] at hdigits
    rw [Directive.bodyLength]
    omega
  have htotal := length_text left z right (dir.prefixText x) (numberChars conv.base conv.num)
  rw [← htext] at htotal
  obtain ⟨total, hT⟩ : ∃ total : Int,
    total = (dir.prefixText x).length + z + (numberChars conv.base conv.num).length := ⟨_, rfl⟩
  rw [← hT] at hlength hpadding
  constructor
  · rintro ⟨left', z', right', digits', htext', hlength', -, hparse'⟩
    -- both texts have the same spaces
    have hspaces := congrArg (List.count (ch ' ')) (htext.symm.trans htext')
    have htotal' := length_text left' z' right' (dir.prefixText x) digits'
    have hdigits : ch ' ' ∉ numberChars conv.base conv.num := not_mem_of_parse (h.parse 0)
    rw [count_text _ _ _ _ _ hdigits,
      count_text _ _ _ _ _ fun hmem => not_mem_of_parse hparse' (List.mem_append_right _ hmem)] at hspaces
    rw [← htext'] at htotal'
    by_contra hwraps
    rw [toInt_of_lt (by omega) (by omega)] at hpadding
    omega
  · intro hfits
    refine ⟨left, z, right, numberChars conv.base conv.num, htext, ?_, hside, h.parse z⟩
    rw [htotal]
    by_cases hsmall : dir.bodyLength precision x ≤ width + 2 ^ 31
    · rw [toInt_of_mem (by omega) (by omega)] at hpadding
      omega
    · rw [toInt_of_lt (by omega) (by omega)] at hpadding
      omega

end Text

/-! ## Any printer -/

/-- From `cur` the interpreter prints the text, and goes on from `cur'`. -/
def Prints (format : List UInt8) (val : Nat → Arg) (color : Int) (cur cur' : Cursor) (text : List UInt8) : Prop :=
  ∀ (fuel : Nat) (σ : Type) (putc : σ → UInt8 → Int → Outcome σ) (p : σ),
    printerLoop putc format val (fuel + 1) cur color p =
      putAll putc color text p >>= printerLoop putc format val fuel cur' color

section Prints

/-- A printer that fails at the first character that is not expected. -/
def expect : List UInt8 → UInt8 → Int → Outcome (List UInt8)
  | [], _, _ => .error .outside
  | e :: s, c, _ => if c = e then .ok s else .error .outside

theorem putAll_expect (color : Int) (s : List UInt8) : putAll expect color s s = .ok [] := by
  induction s with
  | nil => rfl
  | cons c s ih =>
      rw [putAll, expect, if_pos rfl]
      exact ih

theorem prefix_of_expect (color : Int) {s t : List UInt8} (h : putAll expect color s t ≠ .error .outside) :
    s <+: t := by
  induction s generalizing t with
  | nil => exact List.nil_prefix
  | cons c s ih =>
      cases t with
      | nil => exact absurd rfl h
      | cons e t =>
          rw [putAll, expect] at h
          by_cases hc : c = e
          · rw [if_pos hc, ok_bind] at h
            rw [hc]
            exact List.cons_prefix_cons.2 ⟨rfl, ih h⟩
          · rw [if_neg hc] at h
            exact absurd rfl h

variable {format : List UInt8} {val : Nat → Arg} {color : Int} {cur cur' : Cursor} {text text' : List UInt8}

theorem Prints.isPrefix (h : Prints format val color cur cur' text) (h' : Prints format val color cur cur' text') :
    text' <+: text := by
  apply prefix_of_expect color
  intro hfails
  -- without fuel nothing comes after the text
  have hcode := h 0 (List UInt8) expect text
  rw [putAll_expect, h' 0 (List UInt8) expect text, hfails] at hcode
  cases hcode

theorem Prints.unique (h : Prints format val color cur cur' text) (h' : Prints format val color cur cur' text') :
    text = text' := (h'.isPrefix h).eq_of_length_le (h.isPrefix h').length_le

end Prints

namespace Directive

variable (dir : Directive) (val : Nat → Arg) (k : Nat)

theorem amount_mem (p : Amount) (a : Arg) : -2 ^ 31 ≤ p.value a ∧ p.value a < 2 ^ 31 := by
  cases p with
  | absent =>
      show (-2 ^ 31 : Int) ≤ -1 ∧ (-1 : Int) < 2 ^ 31
      decide
  | digits s =>
      have hfits := s.fits
      show -2 ^ 31 ≤ ((number 10 s.chars : Nat) : Int) ∧ ((number 10 s.chars : Nat) : Int) < 2 ^ 31
      omega
  | argument => exact toInt_mem a.word

theorem precisionOf_mem : -1 ≤ dir.precisionOf val k ∧ dir.precisionOf val k < 2 ^ 31 := by
  rw [precisionOf]
  cases dir.precision with
  | none =>
      show (-1 : Int) ≤ -1 ∧ (-1 : Int) < 2 ^ 31
      decide
  | some p =>
      have hp := amount_mem p (val (k + dir.width.slots))
      rw [Option.elim_some]
      omega

/-- A directive in a format prints its text. -/
theorem prints (before rest : List UInt8) (color : Int) :
    Prints (before ++ ch '%' :: (dir.chars ++ rest)) val color ⟨before.length, k⟩
      ⟨before.length + 1 + dir.chars.length, k + dir.slots⟩
      (textOf (dir.specifier.conversion (flagMask 0 dir.flags) color dir.long
        (val (k + dir.width.slots + dir.precisionSlots))) (dir.widthOf val k) (dir.precisionOf val k)) := by
  intro fuel σ putc p
  have hdrop : (before ++ ch '%' :: (dir.chars ++ rest)).drop before.length = ch '%' :: (dir.chars ++ rest) :=
    List.drop_left
  rw [dir.printerLoop_directive hdrop, printConversion_eq putc (dir.describes color val k).ok,
    Specifier.conversion_color]

theorem prints_faithful_iff (before rest : List UInt8) (color : Int) :
    (∃ text, Prints (before ++ ch '%' :: (dir.chars ++ rest)) val color ⟨before.length, k⟩
        ⟨before.length + 1 + dir.chars.length, k + dir.slots⟩ text ∧
      dir.Faithful (dir.widthOf val k) (dir.argument val k) text) ↔
      dir.bodyLength (dir.precisionOf val k) (dir.argument val k) ≤ dir.widthOf val k + 2 ^ 31 ∨
        dir.widthOf val k + 2 ^ 32 ≤ dir.bodyLength (dir.precisionOf val k) (dir.argument val k) := by
  have hprints := dir.prints val k before rest color
  have hwidth : -2 ^ 31 ≤ dir.widthOf val k ∧ dir.widthOf val k < 2 ^ 31 := amount_mem dir.width (val k)
  have hprecision := dir.precisionOf_mem val k
  rw [← (dir.describes color val k).faithful_iff hwidth.1 hwidth.2 hprecision.1 hprecision.2]
  constructor
  · rintro ⟨text, hcode, hfaithful⟩
    rw [hprints.unique hcode]
    exact hfaithful
  · intro hfaithful
    exact ⟨_, hprints, hfaithful⟩

end Directive

/-- Wherever a directive for a number is in a format, its text is faithful if and only if the difference of its
width and the characters without spaces does not wrap around; `fill_numbuf` stays inside its buffer. -/
theorem printer_vprintf_number (dir : Directive) (val : Nat → Arg) (k : Nat) (before rest : List UInt8)
    (color : Int) :
    (∀ (base : Int) (num : Nat) (numbuf : List UInt8), BaseOk base → num < 2 ^ 64 → numbuf.length = NUMBUFSIZ →
      ∃ filled, fillNumbuf numbuf NUMBUFSIZ num base = .ok filled) ∧
    ((∃ text, Prints (before ++ ch '%' :: (dir.chars ++ rest)) val color ⟨before.length, k⟩
        ⟨before.length + 1 + dir.chars.length, k + dir.slots⟩ text ∧
      dir.Faithful (dir.widthOf val k) (dir.argument val k) text) ↔
      dir.bodyLength (dir.precisionOf val k) (dir.argument val k) ≤ dir.widthOf val k + 2 ^ 31 ∨
        dir.widthOf val k + 2 ^ 32 ≤ dir.bodyLength (dir.precisionOf val k) (dir.argument val k)) := by
  refine ⟨fun base num numbuf hbase hnum hlength => ?_, dir.prints_faithful_iff val k before rest color⟩
  obtain ⟨filled, hcode, -⟩ := fillNumbuf_spec hbase hnum hlength
  exact ⟨filled, hcode⟩

/-- `%+.2147483647d`. -/
def hugePrecision : Directive where
  flags := [ch '+']
  width := .absent
  precision := some (.digits
    ⟨[ '2', '1', '4', '7', '4', '8', '3', '6', '4', '7'].map ch, by decide, forall_mem_of_all (by decide),
      by decide⟩)
  lengths := []
  specifier := .d
  isFlag := forall_mem_of_all (by decide)
  isLength := fun _ hc => absurd hc List.not_mem_nil
  head := fun _ hs => Amount.noConfusion hs

/-- For `1` it prints spaces although it has no width. -/
theorem printer_vprintf_number_wraps : ¬∃ text,
    Prints (ch '%' :: (hugePrecision.chars ++ [0])) (fun _ => ⟨1, [], List.not_mem_nil⟩) 0 ⟨0, 0⟩ ⟨14, 1⟩ text ∧
      hugePrecision.Faithful (-1) 1 text := by
  have hargument : hugePrecision.argument (fun _ => ⟨1, [], List.not_mem_nil⟩) 0 = 1 := by
    show toInt 1 = 1
    exact toInt_of_mem (by decide) (by decide)
  have hdigits : (numeral 10 1).length = 1 := by
    rw [numeral_of_div_eq_zero (by decide) (by decide)]
    rfl
  have hbody : hugePrecision.bodyLength 2147483647 1 = 2 ^ 31 := by
    show (1 : Int) + max (((numeral 10 1).length : Nat) : Int) 2147483647 = 2 ^ 31
    rw [hdigits]
    decide
  have hiff := hugePrecision.prints_faithful_iff (fun _ => ⟨1, [], List.not_mem_nil⟩) 0 [] [0] 0
  rw [hargument] at hiff
  intro h
  rcases hiff.1 h with hcondition | hcondition
  · rw [show hugePrecision.precisionOf _ 0 = 2147483647 from rfl, hbody] at hcondition
    exact absurd hcondition (by decide)
  · rw [show hugePrecision.precisionOf _ 0 = 2147483647 from rfl, hbody] at hcondition
    exact absurd hcondition (by decide)

end MemoryManagement.Shared
