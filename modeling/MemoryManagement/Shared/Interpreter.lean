import MemoryManagement.Library.Numerals
import MemoryManagement.Shared.Printf
import Mathlib.Data.List.TakeWhile

/-!
# Every format is interpreted to its end

Whatever a format looks like, also if it ends inside a directive, `printer_vprintf` reads it up to its NUL
and no further, and hands one sequence of characters to its printer (`printerLoop_emits`). The index gets
larger in each round, a directive that is cut short included: it steps back, but not before its `%`.
-/

set_option autoImplicit false

namespace MemoryManagement.Shared

open MemoryManagement.Library.Numerals

theorem bind_eq_ok {α β : Type} {x : Outcome α} {f : α → Outcome β} {r : β} :
    (x >>= f) = .ok r ↔ ∃ a, x = .ok a ∧ f a = .ok r := by
  cases x with
  | error e => simp [bind, Except.bind]
  | ok a => simp [bind, Except.bind]

theorem ok_bind {α β : Type} (a : α) (f : α → Outcome β) : ((.ok a : Outcome α) >>= f) = f a := rfl

/-- A number that fits an `int` is converted to itself. -/
theorem toInt_of_mem {x : Int} (hlow : -2 ^ 31 ≤ x) (hhigh : x < 2 ^ 31) : toInt x = x := by
  rw [toInt]
  apply Int.bmod_eq_of_le
  · omega
  · omega

/-! ## Memory -/

theorem charAt_of_lt {s : List UInt8} {i : Nat} (h : i < s.length) : charAt s i = .ok s[i] := by
  rw [charAt, List.getElem?_eq_getElem h]

theorem store_of_lt {s : List UInt8} {i : Nat} (h : i < s.length) (c : UInt8) :
    store s i c = .ok (s.set i c) := if_pos h

theorem cString_of_drop {s t rest : List UInt8} {i : Nat} (h : s.drop i = t ++ 0 :: rest) (ht : 0 ∉ t) :
    cString s i = t := by
  rw [cString, h, List.takeWhile_append_of_pos]
  · rw [List.takeWhile_cons_of_neg (by decide), List.append_nil]
  · intro c hc
    rw [decide_eq_true_iff]
    rintro rfl
    exact ht hc

theorem not_mem_cString (s : List UInt8) (i : Nat) : 0 ∉ cString s i := by
  intro h
  have hne := List.mem_takeWhile_imp h
  exact absurd rfl (of_decide_eq_true hne)

/-- In a format, the character at an index up to the NUL. -/
theorem charAt_format {chars : List UInt8} (hchars : 0 ∉ chars) {i : Nat} (hi : i ≤ chars.length) :
    ∃ c, charAt (chars ++ [0]) i = .ok c ∧ (c = 0 ↔ i = chars.length) := by
  have hlt : i < (chars ++ [0]).length := by
    rw [List.length_append, List.length_singleton]
    omega
  refine ⟨_, charAt_of_lt hlt, ?_⟩
  rcases Nat.lt_or_eq_of_le hi with hin | rfl
  · rw [List.getElem_append_left hin]
    refine ⟨fun h => absurd ?_ hchars, fun h => absurd h (Nat.ne_of_lt hin)⟩
    rw [← h]
    exact List.getElem_mem hin
  · rw [List.getElem_append_right (Nat.le_refl _)]
    simp

/-! ## Numbers -/

theorem drop_set (s : List UInt8) {i : Nat} (h : i < s.length) (c : UInt8) :
    (s.set i c).drop i = c :: s.drop (i + 1) := by
  rw [List.drop_eq_getElem_cons (by rw [List.length_set]; exact h), List.getElem_set_self, List.drop_set]
  rw [if_pos (Nat.lt_succ_self i)]

theorem storeBefore_of_pos {numbuf : List UInt8} {k : Nat} (hk : k < numbuf.length) (c : UInt8) :
    storeBefore numbuf (k + 1) c = .ok (numbuf.set k c, k) := by
  rw [storeBefore, if_neg (Nat.succ_ne_zero k), Nat.add_sub_cancel, store_of_lt hk]
  rfl

/-- The loop of `fill_numbuf` writes the numeral before `e`. -/
theorem fillDigits_spec (digits : List UInt8) {base : Nat} (hbase : 1 < base) {val fuel : Nat}
    (numbuf : List UInt8) {e : Nat} (hfuel : val < fuel) (hroom : (numeral base val).length ≤ e)
    (he : e ≤ numbuf.length) :
    ∃ numbuf', fillDigits digits base fuel numbuf e val = .ok (numbuf', e - (numeral base val).length) ∧
      numbuf'.drop (e - (numeral base val).length) =
        (numeral base val).map (fun d => digits.getD d 0) ++ numbuf.drop e := by
  obtain ⟨k, rfl⟩ : ∃ k, e = k + 1 := by
    have hpos := length_numeral_pos (n := val) hbase
    exact ⟨e - 1, by omega⟩
  obtain ⟨fuel, rfl⟩ : ∃ n, fuel = n + 1 := ⟨fuel - 1, by omega⟩
  induction val using div_induction hbase generalizing fuel numbuf k with
  | last val hval =>
      rw [numeral_of_div_eq_zero hbase hval]
      refine ⟨numbuf.set k (digits.getD (val % base) 0), ?_, ?_⟩
      · rw [fillDigits, storeBefore_of_pos he, ok_bind, if_neg (not_not.2 hval)]
        rfl
      · exact drop_set numbuf he _
  | step val hval ih =>
      have hrest := numeral_of_div_ne_zero hbase hval
      have hlength : (numeral base val).length = (numeral base (val / base)).length + 1 := by
        rw [hrest, List.length_append, List.length_singleton]
      have hpos := length_numeral_pos (n := val / base) hbase
      obtain ⟨j, rfl⟩ : ∃ j, k = j + 1 := ⟨k - 1, by omega⟩
      have hval₀ : 0 < val := by
        apply Nat.pos_of_ne_zero
        rintro rfl
        exact hval (Nat.zero_div base)
      have hsmall := Nat.div_lt_self hval₀ hbase
      obtain ⟨n, rfl⟩ : ∃ n, fuel = n + 1 := ⟨fuel - 1, by omega⟩
      have hdiv : val / base < n + 1 := Nat.lt_of_lt_of_le hsmall (Nat.le_of_lt_succ hfuel)
      obtain ⟨numbuf', hcode, hdrop⟩ := ih (numbuf.set (j + 1) (digits.getD (val % base) 0)) j
        (by omega) (by rw [List.length_set]; omega) n hdiv
      have hend : j + 1 + 1 - (numeral base val).length = j + 1 - (numeral base (val / base)).length := by
        omega
      refine ⟨numbuf', ?_, ?_⟩
      · rw [fillDigits, storeBefore_of_pos he, ok_bind, if_pos hval, hend]
        exact hcode
      · rw [hend, hdrop, drop_set numbuf he, hrest, List.map_append, List.append_assoc]
        rfl

/-- The characters of a number. -/
def numberChars (base : Int) (num : Nat) : List UInt8 :=
  (numeral base.natAbs num).map fun d => (if base < 0 then lowerDigits else upperDigits).getD d 0

theorem length_numberChars (base : Int) (num : Nat) :
    (numberChars base num).length = (numeral base.natAbs num).length := List.length_map ..

/-- The bases of the conversions. -/
def BaseOk (base : Int) : Prop := base = 10 ∨ base = 16 ∨ base = -16

theorem BaseOk.one_lt {base : Int} (h : BaseOk base) : 1 < base.natAbs := by
  rcases h with rfl | rfl | rfl <;> decide

theorem not_mem_numberChars {base : Int} (h : BaseOk base) (num : Nat) : 0 ∉ numberChars base num := by
  intro hmem
  obtain ⟨d, hd, hzero⟩ := List.mem_map.1 hmem
  have hlt : d < 16 := by
    have := numeral_lt_base h.one_lt hd
    rcases h with rfl | rfl | rfl
    · exact Nat.lt_trans this (by decide)
    · exact this
    · exact this
  have hdigits : ∀ d < 16, lowerDigits.getD d 0 ≠ 0 ∧ upperDigits.getD d 0 ≠ 0 := by decide
  split at hzero
  · exact (hdigits d hlt).1 hzero
  · exact (hdigits d hlt).2 hzero

theorem length_numberChars_le {base : Int} (h : BaseOk base) {num : Nat} (hnum : num < 2 ^ 64) :
    (numberChars base num).length ≤ 20 := by
  rw [length_numberChars]
  apply length_numeral_le h.one_lt
  refine Nat.lt_of_lt_of_le hnum ?_
  rcases h with rfl | rfl | rfl <;> decide

/-- `fill_numbuf` stays inside its buffer. -/
theorem fillNumbuf_spec {base : Int} (h : BaseOk base) {num : Nat} (hnum : num < 2 ^ 64)
    {numbuf : List UInt8} (hlength : numbuf.length = NUMBUFSIZ) :
    ∃ filled, fillNumbuf numbuf NUMBUFSIZ num base = .ok filled ∧
      cString filled.1 filled.2 = numberChars base num := by
  have hle := length_numberChars_le h hnum
  rw [length_numberChars] at hle
  have hroom : 23 < numbuf.length := by
    rw [hlength]
    decide
  obtain ⟨numbuf', hcode, hdrop⟩ := fillDigits_spec (if base < 0 then lowerDigits else upperDigits) h.one_lt
    (numbuf.set 23 0) (Nat.lt_succ_self num) (by omega : (numeral base.natAbs num).length ≤ 23)
    (by rw [List.length_set]; omega)
  refine ⟨(numbuf', 23 - (numeral base.natAbs num).length), ?_, ?_⟩
  · rw [fillNumbuf, storeBefore_of_pos hroom, ok_bind]
    exact hcode
  · have htext : numbuf'.drop (23 - (numeral base.natAbs num).length) =
        numberChars base num ++ 0 :: numbuf.drop 24 := by
      rw [hdrop, drop_set numbuf hroom]
      rfl
    exact cString_of_drop htext (not_mem_numberChars h num)

/-! ## Reading the format -/

section Reading

variable {chars : List UInt8} (hchars : 0 ∉ chars)
include hchars

/-- The flags end at the NUL at the latest. -/
theorem readFlags_returns {fuel i : Nat} (flags : Nat) (hi : i ≤ chars.length)
    (hfuel : chars.length - i < fuel) :
    ∃ i' flags', readFlags (chars ++ [0]) fuel i flags = .ok (i', flags') ∧ i ≤ i' ∧ i' ≤ chars.length := by
  induction fuel generalizing i flags with
  | zero => exact absurd hfuel (Nat.not_lt_zero _)
  | succ fuel ih =>
      obtain ⟨c, hc, hnul⟩ := charAt_format hchars hi
      rw [readFlags, hc, ok_bind]
      by_cases hend : c = 0
      · rw [if_pos hend]
        exact ⟨i, flags, rfl, Nat.le_refl i, hi⟩
      · rw [if_neg hend]
        cases strchr c flagChars with
        | none => exact ⟨i, flags, rfl, Nat.le_refl i, hi⟩
        | some k =>
            have hlt : i ≠ chars.length := fun e => hend (hnul.2 e)
            obtain ⟨i', flags', hcode, hlow, hhigh⟩ := ih (flags ||| 1 <<< k) (i := i + 1) (by omega) (by omega)
            exact ⟨i', flags', hcode, Nat.le_of_succ_le hlow, hhigh⟩

/-- Digits end at the NUL at the latest. -/
theorem readNumber_returns {fuel i : Nat} (value : Int) (hi : i ≤ chars.length)
    (hfuel : chars.length - i < fuel) :
    ∃ i' value', readNumber (chars ++ [0]) fuel i value = .ok (i', value') ∧ i ≤ i' ∧ i' ≤ chars.length := by
  induction fuel generalizing i value with
  | zero => exact absurd hfuel (Nat.not_lt_zero _)
  | succ fuel ih =>
      obtain ⟨c, hc, hnul⟩ := charAt_format hchars hi
      rw [readNumber, hc, ok_bind]
      by_cases hdigit : ch '0' ≤ c ∧ c ≤ ch '9'
      · have hlt : i ≠ chars.length := by
          intro e
          rw [hnul.2 e] at hdigit
          exact absurd hdigit.1 (by decide)
        rw [if_pos hdigit]
        obtain ⟨i', value', hcode, hlow, hhigh⟩ := ih (toInt (10 * value + c.toNat - 48)) (i := i + 1)
          (by omega) (by omega)
        exact ⟨i', value', hcode, Nat.le_of_succ_le hlow, hhigh⟩
      · rw [if_neg hdigit]
        exact ⟨i, value, rfl, Nat.le_refl i, hi⟩

/-- The index has not moved back, nor behind the NUL. -/
def Within (chars : List UInt8) (cur cur' : Cursor) : Prop :=
  cur.format ≤ cur'.format ∧ cur'.format ≤ chars.length

omit hchars in
theorem Within.refl {cur : Cursor} (hi : cur.format ≤ chars.length) : Within chars cur cur :=
  ⟨Nat.le_refl _, hi⟩

variable (val : Nat → Arg)

theorem readWidth_returns (cur : Cursor) (hi : cur.format ≤ chars.length) {fuel : Nat}
    (hfuel : chars.length < fuel) : ∃ cur' width,
      readWidth (chars ++ [0]) val fuel cur = .ok (cur', width) ∧ Within chars cur cur' := by
  obtain ⟨c, hc, hnul⟩ := charAt_format hchars hi
  rw [readWidth, hc, ok_bind]
  by_cases hdigit : ch '1' ≤ c ∧ c ≤ ch '9'
  · obtain ⟨i', value, hcode, hwithin⟩ := readNumber_returns hchars 0 hi (by omega : _ < fuel)
    rw [if_pos hdigit, hcode]
    exact ⟨_, _, rfl, hwithin⟩
  · rw [if_neg hdigit]
    by_cases hstar : c = ch '*'
    · have hlt : cur.format ≠ chars.length := by
        intro e
        rw [hnul.2 e] at hstar
        exact absurd hstar (by decide)
      rw [if_pos hstar]
      exact ⟨_, _, rfl, Nat.le_succ _, Nat.lt_of_le_of_ne hi hlt⟩
    · rw [if_neg hstar]
      exact ⟨_, _, rfl, Within.refl hi⟩

theorem readPrecision_returns {cur : Cursor} (hi : cur.format ≤ chars.length) {fuel : Nat}
    (hfuel : chars.length < fuel) : ∃ cur' precision,
      readPrecision (chars ++ [0]) val fuel cur = .ok (cur', precision) ∧ Within chars cur cur' := by
  obtain ⟨c, hc, hnul⟩ := charAt_format hchars hi
  rw [readPrecision, hc, ok_bind]
  by_cases hdot : c = ch '.'
  · have hlt : cur.format ≠ chars.length := by
      intro e
      rw [hnul.2 e] at hdot
      exact absurd hdot (by decide)
    have hi' : cur.format + 1 ≤ chars.length := Nat.lt_of_le_of_ne hi hlt
    obtain ⟨c', hc', hnul'⟩ := charAt_format hchars hi'
    rw [if_pos hdot, hc', ok_bind]
    by_cases hdigit : ch '0' ≤ c' ∧ c' ≤ ch '9'
    · obtain ⟨i', value, hcode, hlow, hhigh⟩ := readNumber_returns hchars 0 hi' (by omega : _ < fuel)
      rw [if_pos hdigit, hcode]
      exact ⟨_, _, rfl, Nat.le_of_succ_le hlow, hhigh⟩
    · rw [if_neg hdigit]
      by_cases hstar : c' = ch '*'
      · have hlt' : cur.format + 1 ≠ chars.length := by
          intro e
          rw [hnul'.2 e] at hstar
          exact absurd hstar (by decide)
        rw [if_pos hstar]
        exact ⟨_, _, rfl, Nat.le_add_right _ 2, Nat.lt_of_le_of_ne hi' hlt'⟩
      · rw [if_neg hstar]
        exact ⟨_, _, rfl, Nat.le_succ _, hi'⟩
  · rw [if_neg hdot]
    exact ⟨_, _, rfl, Within.refl hi⟩

/-- What a conversion hands on can be printed. -/
structure ConversionOk (conv : Conversion) : Prop where
  base : BaseOk conv.base
  num : conv.num < 2 ^ 64
  data : 0 ∉ conv.data

omit hchars in
theorem formatUnsigned_ok {flags : Nat} {base color : Int} (hbase : BaseOk base) (length : Bool) (a : Arg) :
    ConversionOk (formatUnsigned flags base color length a) := by
  refine ⟨hbase, ?_, List.not_mem_nil⟩
  show (if length then a.unsignedLong else a.unsigned) < 2 ^ 64
  cases length with
  | true => exact Nat.mod_lt _ (by decide)
  | false => exact Nat.lt_trans (Nat.mod_lt _ (by decide)) (by decide : 2 ^ 32 < 2 ^ 64)

/-- The switch ends at a character before the NUL, and not before the `%`. -/
theorem convert_returns (flags : Nat) (color : Int) {fuel : Nat} (length : Bool) (cur : Cursor)
    (hpos : 0 < cur.format) (hi : cur.format ≤ chars.length) (hfuel : chars.length - cur.format < fuel) :
    ∃ cur' conv, convert (chars ++ [0]) val flags color fuel length cur = .ok (cur', conv) ∧
      cur.format ≤ cur'.format + 1 ∧ cur'.format < chars.length ∧ ConversionOk conv := by
  induction fuel generalizing length cur with
  | zero => exact absurd hfuel (Nat.not_lt_zero _)
  | succ fuel ih =>
      obtain ⟨c, hc, hnul⟩ := charAt_format hchars hi
      -- a conversion character is not the NUL
      have hinside : c ≠ 0 → cur.format < chars.length :=
        fun hne => Nat.lt_of_le_of_ne hi fun e => hne (hnul.2 e)
      have hnumbuf : ∀ x, ConversionOk ⟨flags, 10, 0, cString x 0, color, false⟩ :=
        fun x => ⟨Or.inl rfl, Nat.two_pow_pos 64, not_mem_cString x 0⟩
      rw [convert, hc, ok_bind]
      by_cases hlong : c = ch 'l' ∨ c = ch 'z'
      · have hlt := hinside (by rcases hlong with rfl | rfl <;> decide)
        obtain ⟨cur', conv, hcode, hlow, hhigh, hok⟩ := ih true ⟨cur.format + 1, cur.val⟩
          (Nat.succ_pos _) hlt (by simp only; omega)
        rw [if_pos hlong]
        exact ⟨cur', conv, hcode, Nat.le_of_succ_le hlow, hhigh, hok⟩
      rw [if_neg hlong]
      by_cases hsigned : c = ch 'd' ∨ c = ch 'i'
      · have hlt := hinside (by rcases hsigned with rfl | rfl <;> decide)
        rw [if_pos hsigned]
        refine ⟨_, _, rfl, Nat.le_succ _, hlt, Or.inl rfl, ?_, List.not_mem_nil⟩
        rw [formatSigned]
        simp only
        omega
      rw [if_neg hsigned]
      by_cases hu : c = ch 'u'
      · rw [if_pos hu]
        exact ⟨_, _, rfl, Nat.le_succ _, hinside (by rw [hu]; decide), formatUnsigned_ok (Or.inl rfl) _ _⟩
      rw [if_neg hu]
      by_cases hx : c = ch 'x'
      · rw [if_pos hx]
        exact ⟨_, _, rfl, Nat.le_succ _, hinside (by rw [hx]; decide),
          formatUnsigned_ok (Or.inr (Or.inr rfl)) _ _⟩
      rw [if_neg hx]
      by_cases hX : c = ch 'X'
      · rw [if_pos hX]
        exact ⟨_, _, rfl, Nat.le_succ _, hinside (by rw [hX]; decide),
          formatUnsigned_ok (Or.inr (Or.inl rfl)) _ _⟩
      rw [if_neg hX]
      by_cases hp : c = ch 'p'
      · rw [if_pos hp]
        exact ⟨_, _, rfl, Nat.le_succ _, hinside (by rw [hp]; decide), Or.inr (Or.inr rfl),
          Nat.mod_lt _ (by decide), List.not_mem_nil⟩
      rw [if_neg hp]
      by_cases hs : c = ch 's'
      · rw [if_pos hs]
        exact ⟨_, _, rfl, Nat.le_succ _, hinside (by rw [hs]; decide), Or.inl rfl, Nat.two_pow_pos 64,
          (val cur.val).noNul⟩
      rw [if_neg hs]
      by_cases hC : c = ch 'C'
      · rw [if_pos hC]
        exact ⟨_, _, rfl, Nat.le_succ _, hinside (by rw [hC]; decide), Or.inl rfl, Nat.two_pow_pos 64,
          List.not_mem_nil⟩
      rw [if_neg hC]
      by_cases hchar : c = ch 'c'
      · rw [if_pos hchar]
        exact ⟨_, _, rfl, Nat.le_succ _, hinside (by rw [hchar]; decide), hnumbuf _⟩
      rw [if_neg hchar]
      by_cases hend : c = 0
      · have hlast := hnul.1 hend
        rw [if_pos hend]
        refine ⟨_, _, rfl, ?_, ?_, hnumbuf _⟩
        · simp only
          omega
        · simp only
          omega
      · rw [if_neg hend]
        exact ⟨_, _, rfl, Nat.le_succ _, hinside hend, hnumbuf _⟩

end Reading

/-! ## Printing -/

section Printing

variable {σ : Type} (putc : σ → UInt8 → Int → Outcome σ)

/-- Characters with their colours, one after the other. -/
def emit (text : List (UInt8 × Int)) (p : σ) : Outcome σ := text.foldlM (fun p x => putc p x.1 x.2) p

theorem emit_append (s t : List (UInt8 × Int)) (p : σ) :
    emit putc (s ++ t) p = emit putc s p >>= emit putc t := by
  rw [emit, List.foldlM_append]
  rfl

theorem putAll_eq_emit (color : Int) (s : List UInt8) (p : σ) :
    putAll putc color s p = emit putc (s.map fun c => (c, color)) p := by
  induction s generalizing p with
  | nil => rfl
  | cons c s ih =>
      rw [putAll, List.map_cons, emit, List.foldlM_cons]
      congr 1
      funext p'
      exact ih p'

theorem putAll_append (color : Int) (s t : List UInt8) (p : σ) :
    putAll putc color (s ++ t) p = putAll putc color s p >>= putAll putc color t := by
  rw [putAll_eq_emit, putAll_eq_emit, List.map_append, emit_append]
  congr 1
  funext p'
  rw [putAll_eq_emit]

/-- The data of a directive, as it is printed. -/
def dataText (conv : Conversion) : List UInt8 :=
  if conv.flags &&& FLAG_NUMERIC ≠ 0 then numberChars conv.base conv.num else conv.data

/-- `width` at the end of a directive: what is left to be filled with spaces. -/
def paddingOf (conv : Conversion) (width precision : Int) : Int :=
  let len := lenOf conv precision (dataText conv)
  toInt (width - (len + zerosOf conv width precision len (prefixOf conv).length + (prefixOf conv).length))

/-- The characters of a directive between the spaces. -/
def bodyOf (conv : Conversion) (width precision : Int) : List UInt8 :=
  let len := lenOf conv precision (dataText conv)
  prefixOf conv ++ List.replicate (zerosOf conv width precision len (prefixOf conv).length).toNat (ch '0') ++
    (dataText conv).take len.toNat

/-- The characters of a directive. -/
def textOf (conv : Conversion) (width precision : Int) : List UInt8 :=
  let padding := (paddingOf conv width precision).toNat
  let left := if conv.flags &&& FLAG_LEFTJUSTIFY = 0 then padding else 0
  List.replicate left (ch ' ') ++ bodyOf conv width precision ++ List.replicate (padding - left) (ch ' ')

variable {conv : Conversion}

theorem dataOf_eq (h : ConversionOk conv) : dataOf conv = .ok (dataText conv) := by
  rw [dataOf, dataText]
  split
  · obtain ⟨filled, hcode, hdigits⟩ := fillNumbuf_spec h.base h.num (List.length_replicate ..)
    rw [hcode, ok_bind, hdigits]
  · rfl

/-- The directive prints its characters. -/
theorem printConversion_eq (h : ConversionOk conv) (width precision : Int) (p : σ) :
    printConversion putc conv width precision p =
      putAll putc conv.color (textOf conv width precision) p := by
  rw [textOf, bodyOf, printConversion, dataOf_eq h, ok_bind]
  simp only [putAll_append, bind_assoc]
  rfl

theorem not_mem_prefixOf (conv : Conversion) : 0 ∉ prefixOf conv := by
  rw [prefixOf]
  split_ifs <;> decide

theorem not_mem_textOf (h : ConversionOk conv) (width precision : Int) : 0 ∉ textOf conv width precision := by
  have hdata : 0 ∉ dataText conv := by
    rw [dataText]
    split
    · exact not_mem_numberChars h.base conv.num
    · exact h.data
  have hreplicate : ∀ n c, c ≠ 0 → (0 : UInt8) ∉ List.replicate n c :=
    fun n c hc hmem => hc (List.eq_of_mem_replicate hmem).symm
  rw [textOf, bodyOf]
  simp only [List.mem_append, not_or]
  refine ⟨⟨hreplicate _ _ (by decide), ⟨not_mem_prefixOf conv, hreplicate _ _ (by decide)⟩, ?_⟩,
    hreplicate _ _ (by decide)⟩
  exact fun hmem => hdata (List.mem_of_mem_take hmem)

end Printing

/-! ## The whole format -/

/-- The interpreter hands one sequence of characters to its printer, whatever that is. -/
theorem printerLoop_emits {chars : List UInt8} (hchars : 0 ∉ chars) (val : Nat → Arg) (cur : Cursor)
    (hi : cur.format ≤ chars.length) (color : Int) :
    ∃ text, (∀ x ∈ text, x.1 ≠ 0) ∧
      ∀ fuel, chars.length - cur.format < fuel → ∀ (σ : Type) (putc : σ → UInt8 → Int → Outcome σ) (p : σ),
        printerLoop putc (chars ++ [0]) val fuel cur color p = emit putc text p := by
  -- the index gets closer to the NUL
  obtain ⟨left, hleft⟩ : ∃ left, left = chars.length - cur.format := ⟨_, rfl⟩
  induction left using Nat.strongRecOn generalizing cur color with
  | ind left ih =>
      have hlength : (chars ++ [0]).length + 1 = chars.length + 2 := by
        rw [List.length_append, List.length_singleton]
      obtain ⟨c, hc, hnul⟩ := charAt_format hchars hi
      by_cases hend : c = 0
      · refine ⟨[], fun x hx => absurd hx List.not_mem_nil, fun fuel hfuel σ putc p => ?_⟩
        obtain ⟨n, rfl⟩ : ∃ n, fuel = n + 1 := ⟨fuel - 1, by omega⟩
        rw [printerLoop, hc, ok_bind, if_pos hend]
        rfl
      · have hlt : cur.format < chars.length := Nat.lt_of_le_of_ne hi fun e => hend (hnul.2 e)
        by_cases hplain : c = ch '%'
        · obtain ⟨i₁, flags, hflags, hlow₁, hhigh₁⟩ := readFlags_returns hchars 0 (i := cur.format + 1) hlt
            (by omega : chars.length - (cur.format + 1) < chars.length + 2)
          obtain ⟨cur₂, width, hwidth, hlow₂, hhigh₂⟩ := readWidth_returns hchars val
            ⟨i₁, cur.val⟩ hhigh₁ (by omega : chars.length < chars.length + 2)
          obtain ⟨cur₃, precision, hprecision, hlow₃, hhigh₃⟩ := readPrecision_returns hchars val
            hhigh₂ (by omega : chars.length < chars.length + 2)
          simp only at hlow₂
          obtain ⟨cur₄, conv, hconv, hlow₄, hhigh₄, hok⟩ := convert_returns hchars val flags color false cur₃
            (by omega : 0 < cur₃.format) hhigh₃
            (by omega : chars.length - cur₃.format < chars.length + 2)
          obtain ⟨text, hnonzero, hemits⟩ := ih (chars.length - (cur₄.format + 1)) (by omega)
            ⟨cur₄.format + 1, cur₄.val⟩ hhigh₄ conv.color rfl
          refine ⟨(if conv.done then [] else (textOf conv width precision).map fun c => (c, conv.color)) ++ text,
            fun x hx => ?_, fun fuel hfuel σ putc p => ?_⟩
          · rcases List.mem_append.1 hx with hx | hx
            · split at hx
              · exact absurd hx List.not_mem_nil
              · obtain ⟨c', hc', rfl⟩ := List.mem_map.1 hx
                rintro rfl
                exact not_mem_textOf hok width precision hc'
            · exact hnonzero x hx
          · obtain ⟨n, rfl⟩ : ∃ n, fuel = n + 1 := ⟨fuel - 1, by omega⟩
            rw [printerLoop, hc, ok_bind, if_neg hend, if_neg (not_not.2 hplain), hlength, hflags, ok_bind,
              hwidth, ok_bind, hprecision, ok_bind, hconv, ok_bind, emit_append]
            have hrest : ∀ p', printerLoop putc (chars ++ [0]) val n ⟨cur₄.format + 1, cur₄.val⟩ conv.color p' =
                emit putc text p' := fun p' => hemits n (by simp only; omega) σ putc p'
            cases hdone : conv.done with
            | true =>
                simp only [if_true]
                exact hrest p
            | false =>
                simp only [Bool.false_eq_true, if_false]
                rw [printConversion_eq putc hok, putAll_eq_emit]
                congr 1
                funext p'
                exact hrest p'
        · obtain ⟨text, hnonzero, hemits⟩ := ih (chars.length - (cur.format + 1)) (by omega)
            ⟨cur.format + 1, cur.val⟩ hlt color rfl
          refine ⟨(c, color) :: text, fun x hx => ?_, fun fuel hfuel σ putc p => ?_⟩
          · rcases List.mem_cons.1 hx with rfl | hx
            · exact hend
            · exact hnonzero x hx
          · obtain ⟨n, rfl⟩ : ∃ n, fuel = n + 1 := ⟨fuel - 1, by omega⟩
            rw [printerLoop, hc, ok_bind, if_neg hend, if_pos hplain, emit, List.foldlM_cons]
            congr 1
            funext p'
            exact hemits n (by simp only; omega) σ putc p'

theorem printerVprintf_emits {chars : List UInt8} (hchars : 0 ∉ chars) (val : Nat → Arg) (color : Int) :
    ∃ text, (∀ x ∈ text, x.1 ≠ 0) ∧
      ∀ (σ : Type) (putc : σ → UInt8 → Int → Outcome σ) (p : σ),
        printerVprintf putc color (chars ++ [0]) val p = emit putc text p := by
  obtain ⟨text, hnonzero, hemits⟩ := printerLoop_emits hchars val ⟨0, 0⟩ (Nat.zero_le _) color
  refine ⟨text, hnonzero, fun σ putc p => hemits _ ?_ σ putc p⟩
  rw [List.length_append]
  simp only
  omega

/-- A printer that always returns. -/
theorem emit_returns {σ : Type} (putc : σ → UInt8 → Int → σ) (text : List (UInt8 × Int)) (p : σ) :
    emit (fun p c color => .ok (putc p c color)) text p = .ok (text.foldl (fun p x => putc p x.1 x.2) p) := by
  induction text generalizing p with
  | nil => rfl
  | cons x text ih =>
      rw [emit, List.foldlM_cons]
      exact ih (putc p x.1 x.2)

/-- On every format that ends in a NUL `printer_vprintf` ends, and it reads nothing behind the NUL. -/
theorem printer_vprintf_ends {chars : List UInt8} (hchars : 0 ∉ chars) (val : Nat → Arg) (color : Int)
    {σ : Type} (putc : σ → UInt8 → Int → σ) (p : σ) :
    ∃ p', printerVprintf (fun p c color => .ok (putc p c color)) color (chars ++ [0]) val p = .ok p' ∧
      ∀ fuel, chars.length < fuel →
        printerLoop (fun p c color => .ok (putc p c color)) (chars ++ [0]) val fuel ⟨0, 0⟩ color p = .ok p' := by
  obtain ⟨text, -, hemits⟩ := printerLoop_emits hchars val ⟨0, 0⟩ (Nat.zero_le _) color
  have hrun : ∀ fuel, chars.length < fuel → printerLoop (fun p c color => .ok (putc p c color))
      (chars ++ [0]) val fuel ⟨0, 0⟩ color p = .ok (text.foldl (fun p x => putc p x.1 x.2) p) := by
    intro fuel hfuel
    rw [hemits fuel hfuel]
    exact emit_returns putc text p
  refine ⟨_, hrun _ ?_, hrun⟩
  rw [List.length_append]
  omega

/-- A format that ends inside a directive. -/
theorem printer_vprintf_ends_short : ∃ n, printerVprintf (fun n _ _ => .ok (n + 1)) 0
    ([ '%', '-', '5', '.', '2', 'l'].map ch ++ [0]) (fun _ => ⟨0, [], List.not_mem_nil⟩) 0 = .ok n := by
  obtain ⟨n, hcode, -⟩ := printer_vprintf_ends (show 0 ∉ [ '%', '-', '5', '.', '2', 'l'].map ch by decide)
    (fun _ => ⟨0, [], List.not_mem_nil⟩) 0 (fun n _ _ => n + 1) 0
  exact ⟨n, hcode⟩

end MemoryManagement.Shared
