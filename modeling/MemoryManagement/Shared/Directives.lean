import MemoryManagement.Shared.Interpreter

/-!
# Directives for numbers

A directive for a number, in all its spellings, and how `printer_vprintf` reads it: wherever it is in a
format, the interpreter gets its flags, its width and its precision, and fetches its arguments
(`printerLoop_directive`).
-/

set_option autoImplicit false

namespace MemoryManagement.Shared

open MemoryManagement.Library.Numerals

/-! ## Spelling -/

abbrev IsDigit (c : UInt8) : Prop := ch '0' ≤ c ∧ c ≤ ch '9'

/-- The digit that a character is; 16 if it is none. -/
def digitOf (c : UInt8) : Nat :=
  if IsDigit c then c.toNat - 48
  else if ch 'a' ≤ c ∧ c ≤ ch 'f' then c.toNat - 87
  else if ch 'A' ≤ c ∧ c ≤ ch 'F' then c.toNat - 55
  else 16

/-- The number that digits stand for. -/
def number (base : Nat) (s : List UInt8) : Nat := valueOf base (s.map digitOf)

/-- The digits of a number that fits an `int`. -/
structure Digits where
  chars : List UInt8
  nonempty : chars ≠ []
  isDigit : ∀ c ∈ chars, IsDigit c
  fits : number 10 chars < 2 ^ 31

theorem Digits.exists_cons (s : Digits) : ∃ x t, s.chars = x :: t ∧ IsDigit x := by
  obtain ⟨x, t, hs⟩ := List.exists_cons_of_ne_nil s.nonempty
  refine ⟨x, t, hs, s.isDigit x ?_⟩
  rw [hs]
  exact List.mem_cons_self

/-- A width or a precision: nothing, digits, or a `*` that stands for an argument. -/
inductive Amount where
  | absent
  | digits (s : Digits)
  | argument

def Amount.chars : Amount → List UInt8
  | absent => []
  | digits s => s.chars
  | argument => [ch '*']

/-- How many arguments are taken. -/
def Amount.slots : Amount → Nat
  | absent => 0
  | digits _ => 0
  | argument => 1

def Amount.value (a : Arg) : Amount → Int
  | absent => -1
  | digits s => number 10 s.chars
  | argument => a.int

/-- The conversions to numbers. -/
inductive Specifier where
  | d | i | u | x | X | p
  deriving DecidableEq

def Specifier.char : Specifier → UInt8
  | d => ch 'd'
  | i => ch 'i'
  | u => ch 'u'
  | x => ch 'x'
  | X => ch 'X'
  | p => ch 'p'

/-- A directive for a number. -/
structure Directive where
  flags : List UInt8
  width : Amount
  precision : Option Amount
  lengths : List UInt8
  specifier : Specifier
  isFlag : ∀ c ∈ flags, c ∈ flagChars
  isLength : ∀ c ∈ lengths, c = ch 'l' ∨ c = ch 'z'
  -- a zero is a flag
  head : ∀ s, width = .digits s → s.chars.head? ≠ some (ch '0')

namespace Directive

/-- The precision, with its dot. -/
def precisionChars (dir : Directive) : List UInt8 := dir.precision.elim [] fun p => ch '.' :: p.chars

/-- The directive behind its `%`. -/
def chars (dir : Directive) : List UInt8 :=
  dir.flags ++ (dir.width.chars ++ (dir.precisionChars ++ (dir.lengths ++ [dir.specifier.char])))

def precisionSlots (dir : Directive) : Nat := dir.precision.elim 0 Amount.slots

/-- An `l` or `z` asks for a `long`. -/
def long (dir : Directive) : Bool := !dir.lengths.isEmpty

/-- How many arguments the directive takes. -/
def slots (dir : Directive) : Nat := dir.width.slots + dir.precisionSlots + 1

section Arguments

variable (dir : Directive) (val : Nat → Arg) (k : Nat)

/-- The width of a directive that takes its arguments from slot `k` on. -/
def widthOf : Int := dir.width.value (val k)

/-- The precision, -1 if there is none. -/
def precisionOf : Int :=
  dir.precision.elim (-1) fun p => max 0 (p.value (val (k + dir.width.slots)))

/-- The number to be printed. -/
def argument : Int :=
  let a := val (k + dir.width.slots + dir.precisionSlots)
  match dir.specifier with
  | .d | .i => if dir.long then a.long else a.int
  | .u | .x | .X => if dir.long then a.unsignedLong else a.unsigned
  | .p => a.unsignedLong

end Arguments

end Directive

/-- A fact about each of some characters. -/
theorem forall_mem_of_all {s : List UInt8} {P : UInt8 → Prop} [DecidablePred P]
    (h : (s.all fun c => decide (P c)) = true) : ∀ c ∈ s, P c := by
  intro c hc
  exact of_decide_eq_true (List.all_eq_true.1 h c hc)

/-! ## Reading -/

section Reading

variable {format rest s : List UInt8} {i : Nat} {c : UInt8}

theorem charAt_of_drop (h : format.drop i = c :: rest) : charAt format i = .ok c := by
  rw [charAt, ← List.head?_drop, h]
  rfl

theorem drop_of_drop (h : format.drop i = s ++ rest) : format.drop (i + s.length) = rest := by
  rw [← List.drop_drop, h, List.drop_left]

theorem length_le_of_drop (h : format.drop i = s ++ rest) : s.length ≤ format.length := by
  have hlength := congrArg List.length h
  rw [List.length_drop, List.length_append] at hlength
  omega

theorem strchr_eq_none (hc : c ∉ s) (hne : c ≠ 0) : strchr c s = none := by
  induction s with
  | nil => exact if_neg hne
  | cons x s ih =>
      obtain ⟨hx, hs⟩ := not_or.1 (List.mem_cons.not.1 hc)
      rw [strchr, if_neg (Ne.symm hx), ih hs]
      rfl

/-- The bits of flags. -/
def flagMask (flags : Nat) : List UInt8 → Nat
  | [] => flags
  | c :: s => flagMask (flags ||| 1 <<< (strchr c flagChars).getD 0) s

theorem readFlags_eq {fuel : Nat} (flags : Nat) (h : format.drop i = s ++ c :: rest) (hs : ∀ c ∈ s, c ∈ flagChars)
    (hc : c ∉ flagChars) (hfuel : s.length < fuel) :
    readFlags format fuel i flags = .ok (i + s.length, flagMask flags s) := by
  have hnonzero : ∀ c ∈ flagChars, c ≠ 0 ∧ (strchr c flagChars).isSome :=
    forall_mem_of_all (by decide)
  induction s generalizing fuel i flags with
  | nil =>
      obtain ⟨n, rfl⟩ : ∃ n, fuel = n + 1 := ⟨fuel - 1, by omega⟩
      rw [readFlags, charAt_of_drop h, ok_bind]
      by_cases hend : c = 0
      · rw [if_pos hend]
        rfl
      · rw [if_neg hend, strchr_eq_none hc hend]
        rfl
  | cons x s ih =>
      obtain ⟨n, rfl⟩ : ∃ n, fuel = n + 1 := ⟨fuel - 1, by omega⟩
      obtain ⟨hx, hs⟩ := List.forall_mem_cons.1 hs
      obtain ⟨hne, hsome⟩ := hnonzero x hx
      obtain ⟨k, hk⟩ := Option.isSome_iff_exists.1 hsome
      rw [readFlags, charAt_of_drop h, ok_bind, if_neg hne, hk]
      have hdrop : format.drop (i + [x].length) = s ++ c :: rest := drop_of_drop h
      have hrest := ih (flags ||| 1 <<< k) hdrop hs (Nat.lt_of_succ_lt_succ hfuel)
      rw [flagMask, hk, List.length_cons, Nat.add_comm s.length, ← Nat.add_assoc]
      exact hrest

/-- The number that digits stand for, behind others. -/
def numberFrom (value : Nat) (s : List UInt8) : Nat := (s.map digitOf).foldl (fun v d => v * 10 + d) value

theorem readNumber_eq {fuel value : Nat} (h : format.drop i = s ++ c :: rest) (hs : ∀ c ∈ s, IsDigit c)
    (hc : ¬IsDigit c) (hfits : numberFrom value s < 2 ^ 31) (hfuel : s.length < fuel) :
    readNumber format fuel i value = .ok (i + s.length, numberFrom value s) := by
  induction s generalizing fuel i value with
  | nil =>
      obtain ⟨n, rfl⟩ : ∃ n, fuel = n + 1 := ⟨fuel - 1, by omega⟩
      rw [readNumber, charAt_of_drop h, ok_bind]
      exact if_neg hc
  | cons x s ih =>
      obtain ⟨n, rfl⟩ : ∃ n, fuel = n + 1 := ⟨fuel - 1, by omega⟩
      obtain ⟨hx, hs⟩ := List.forall_mem_cons.1 hs
      have hdrop : format.drop (i + [x].length) = s ++ c :: rest := drop_of_drop h
      have hdigit : digitOf x = x.toNat - 48 := if_pos hx
      have hlow : 48 ≤ x.toNat := hx.1
      -- no number on the way is larger than the last one
      have hle : value * 10 + digitOf x ≤ numberFrom value (x :: s) := le_foldl (by decide) _ _
      have hnext : toInt (10 * value + x.toNat - 48) = (value * 10 + digitOf x : Nat) := by
        rw [toInt_of_mem (by omega) (by omega), hdigit]
        omega
      have hrest : readNumber format n (i + 1) (value * 10 + digitOf x : Nat) =
          .ok (i + 1 + s.length, numberFrom value (x :: s)) :=
        ih hdrop hs hfits (Nat.lt_of_succ_lt_succ hfuel)
      rw [readNumber, charAt_of_drop h, ok_bind, if_pos hx, hnext, hrest, List.length_cons,
        Nat.add_comm s.length, Nat.add_assoc]

/-- The first of the digits, and the number. -/
theorem readNumber_digits {t : Digits} (h : format.drop i = t.chars ++ c :: rest) (hc : ¬IsDigit c) {fuel : Nat}
    (hfuel : format.length < fuel) :
    (∃ x s, t.chars = x :: s ∧ IsDigit x ∧ charAt format i = .ok x) ∧
      readNumber format fuel i 0 = .ok (i + t.chars.length, number 10 t.chars) := by
  obtain ⟨x, s, hs, hx⟩ := t.exists_cons
  refine ⟨⟨x, s, hs, hx, ?_⟩, ?_⟩
  · rw [hs] at h
    exact charAt_of_drop h
  · exact readNumber_eq h t.isDigit hc t.fits (Nat.lt_of_le_of_lt (length_le_of_drop h) hfuel)

/-- Neither a digit nor a star. -/
abbrev Stops (c : UInt8) : Prop := ¬IsDigit c ∧ c ≠ ch '*'

variable (val : Nat → Arg) (cur : Cursor) {fuel : Nat}

theorem readWidth_eq {w : Amount} (h : format.drop cur.format = w.chars ++ c :: rest) (hc : Stops c)
    (hhead : ∀ s, w = .digits s → s.chars.head? ≠ some (ch '0')) (hfuel : format.length < fuel) :
    readWidth format val fuel cur =
      .ok (⟨cur.format + w.chars.length, cur.val + w.slots⟩, w.value (val cur.val)) := by
  have hpositive : ∀ x, ch '1' ≤ x ∧ x ≤ ch '9' ↔ IsDigit x ∧ x ≠ ch '0' := by
    intro x
    rw [ne_eq, ← UInt8.toNat_inj]
    show 49 ≤ x.toNat ∧ x.toNat ≤ 57 ↔ (48 ≤ x.toNat ∧ x.toNat ≤ 57) ∧ ¬x.toNat = 48
    omega
  cases w with
  | absent =>
      have hnot : ¬(ch '1' ≤ c ∧ c ≤ ch '9') := fun hdigit => hc.1 ((hpositive c).1 hdigit).1
      rw [readWidth, charAt_of_drop h, ok_bind, if_neg hnot, if_neg hc.2]
      rfl
  | digits t =>
      obtain ⟨⟨x, s, hs, hx, hchar⟩, hnumber⟩ := readNumber_digits h hc.1 hfuel
      have hne : x ≠ ch '0' := by
        rintro rfl
        apply hhead t rfl
        rw [hs]
        rfl
      rw [readWidth, hchar, ok_bind, if_pos ((hpositive x).2 ⟨hx, hne⟩), hnumber]
      rfl
  | argument =>
      rw [readWidth, charAt_of_drop h, ok_bind]
      rfl

theorem readPrecision_eq {precision : Option Amount}
    (h : format.drop cur.format = precision.elim [] (fun p => ch '.' :: p.chars) ++ c :: rest) (hc : Stops c)
    (hdot : c ≠ ch '.') (hfuel : format.length < fuel) :
    readPrecision format val fuel cur =
      .ok (⟨cur.format + (precision.elim [] fun p => ch '.' :: p.chars).length,
          cur.val + precision.elim 0 Amount.slots⟩,
        precision.elim (-1) fun p => max 0 (p.value (val cur.val))) := by
  have hnonneg : ∀ x : Int, (if x < 0 then 0 else x) = max 0 x := by
    intro x
    rw [Int.max_def]
    split <;> split <;> omega
  cases precision with
  | none =>
      rw [readPrecision, charAt_of_drop h, ok_bind, if_neg hdot]
      rfl
  | some p =>
      have hchar : charAt format cur.format = .ok (ch '.') := charAt_of_drop h
      have hdrop : format.drop (cur.format + [ch '.'].length) = p.chars ++ c :: rest := drop_of_drop h
      rw [List.length_singleton] at hdrop
      show _ = Except.ok ((⟨cur.format + (p.chars.length + 1), cur.val + p.slots⟩ : Cursor), _)
      rw [readPrecision, hchar, ok_bind, if_pos rfl, Nat.add_comm p.chars.length, ← Nat.add_assoc]
      cases p with
      | absent =>
          have hnot : ¬(ch '0' ≤ c ∧ c ≤ ch '9') := hc.1
          rw [charAt_of_drop hdrop, ok_bind, if_neg hnot, if_neg hc.2]
          rfl
      | digits t =>
          obtain ⟨⟨x, s, hs, hx, hchar'⟩, hnumber⟩ := readNumber_digits hdrop hc.1 hfuel
          rw [hchar', ok_bind, if_pos hx, hnumber]
          simp only [ok_bind, hnonneg]
          rfl
      | argument =>
          have hnot : ¬(ch '0' ≤ ch '*' ∧ ch '*' ≤ ch '9') := by decide
          rw [charAt_of_drop hdrop, ok_bind, if_neg hnot, if_pos rfl, Option.elim_some, Amount.value]
          simp only [ok_bind, hnonneg]
          rfl

/-- Every `l` and `z` asks for a `long`. -/
theorem convert_lengths (flags : Nat) (color : Int) (fuel : Nat) (length : Bool)
    (h : format.drop cur.format = s ++ rest) (hs : ∀ c ∈ s, c = ch 'l' ∨ c = ch 'z') :
    convert format val flags color (fuel + s.length) length cur =
      convert format val flags color fuel (length || !s.isEmpty) ⟨cur.format + s.length, cur.val⟩ := by
  induction s generalizing length cur with
  | nil =>
      rw [List.isEmpty_nil, Bool.not_true, Bool.or_false]
      rfl
  | cons c s ih =>
      obtain ⟨hc, hs⟩ := List.forall_mem_cons.1 hs
      have hrest := ih ⟨cur.format + 1, cur.val⟩ true (drop_of_drop (show _ = [c] ++ (s ++ rest) from h)) hs
      rw [List.length_cons, ← Nat.add_assoc, convert, charAt_of_drop h, ok_bind, if_pos hc, hrest]
      rw [Bool.true_or, List.isEmpty_cons, Bool.not_false, Bool.or_true, Nat.add_comm s.length, Nat.add_assoc]

/-- The switch at a conversion to a number. -/
def Specifier.conversion (flags : Nat) (color : Int) (length : Bool) (a : Arg) : Specifier → Conversion
  | .d | .i => formatSigned flags color length a
  | .u => formatUnsigned flags 10 color length a
  | .x => formatUnsigned flags (-16) color length a
  | .X => formatUnsigned flags 16 color length a
  | .p => formatPointer flags color a

theorem convert_specifier (flags : Nat) (color : Int) (fuel : Nat) (length : Bool) (sp : Specifier)
    (h : format.drop cur.format = sp.char :: rest) :
    convert format val flags color (fuel + 1) length cur =
      .ok (⟨cur.format, cur.val + 1⟩, sp.conversion flags color length (val cur.val)) := by
  rw [convert, charAt_of_drop h, ok_bind]
  cases sp with
  | d => rfl
  | i => rfl
  | u => rfl
  | x => rfl
  | X => rfl
  | p => rfl

theorem Specifier.conversion_done (flags : Nat) (color : Int) (length : Bool) (a : Arg) (sp : Specifier) :
    (sp.conversion flags color length a).done = false := by
  cases sp <;> rfl

theorem Specifier.conversion_color (flags : Nat) (color : Int) (length : Bool) (a : Arg) (sp : Specifier) :
    (sp.conversion flags color length a).color = color := by
  cases sp <;> rfl

end Reading

/-! ## A directive in a format -/

namespace Directive

variable (dir : Directive) (rest : List UInt8)

/-- The characters behind the flags, the width and the precision. -/
def behindPrecision : List UInt8 := dir.lengths ++ (dir.specifier.char :: rest)

def behindWidth : List UInt8 := dir.precisionChars ++ dir.behindPrecision rest

def behindFlags : List UInt8 := dir.width.chars ++ dir.behindWidth rest

theorem chars_append : dir.chars ++ rest = dir.flags ++ dir.behindFlags rest := by
  rw [chars, behindFlags, behindWidth, behindPrecision]
  simp only [List.append_assoc, List.singleton_append]

theorem length_chars : dir.chars.length = dir.flags.length + dir.width.chars.length +
    dir.precisionChars.length + dir.lengths.length + 1 := by
  rw [chars]
  simp only [List.length_append, List.length_singleton]
  omega

/-- Behind the precision there is a letter. -/
theorem behindPrecision_head : ∃ c t, dir.behindPrecision rest = c :: t ∧
    c ∈ [ch 'l', ch 'z', ch 'd', ch 'i', ch 'u', ch 'x', ch 'X', ch 'p'] := by
  cases hlengths : dir.lengths with
  | nil =>
      refine ⟨_, _, by rw [behindPrecision, hlengths]; rfl, ?_⟩
      cases dir.specifier <;> decide
  | cons c t =>
      refine ⟨c, t ++ dir.specifier.char :: rest, by rw [behindPrecision, hlengths]; rfl, ?_⟩
      rcases dir.isLength c (by rw [hlengths]; exact List.mem_cons_self) with rfl | rfl
      · decide
      · decide

theorem letter_stops : ∀ c ∈ [ch 'l', ch 'z', ch 'd', ch 'i', ch 'u', ch 'x', ch 'X', ch 'p'],
    (¬IsDigit c ∧ c ≠ ch '*') ∧ c ≠ ch '.' ∧ c ∉ flagChars := forall_mem_of_all (by decide)

/-- Behind the width there is a dot or a letter. -/
theorem behindWidth_head : ∃ c t, dir.behindWidth rest = c :: t ∧ Stops c ∧ c ∉ flagChars := by
  rw [behindWidth, precisionChars]
  cases dir.precision with
  | none =>
      obtain ⟨c, t, ht, hc⟩ := dir.behindPrecision_head rest
      obtain ⟨hstops, -, hflag⟩ := letter_stops c hc
      exact ⟨c, t, ht, hstops, hflag⟩
  | some p => exact ⟨ch '.', _, rfl, by decide, by decide⟩

/-- No flag comes behind the flags. -/
theorem behindFlags_head : ∃ c t, dir.behindFlags rest = c :: t ∧ c ∉ flagChars := by
  rw [behindFlags]
  cases hwidth : dir.width with
  | absent =>
      obtain ⟨c, t, ht, -, hflag⟩ := dir.behindWidth_head rest
      exact ⟨c, t, ht, hflag⟩
  | digits s =>
      obtain ⟨x, t, hs, hx⟩ := s.exists_cons
      refine ⟨x, t ++ dir.behindWidth rest, by rw [Amount.chars, hs]; rfl, ?_⟩
      have hne : x ≠ ch '0' := by
        rintro rfl
        apply dir.head s hwidth
        rw [hs]
        rfl
      have hflags : ∀ c ∈ flagChars, IsDigit c → c = ch '0' := forall_mem_of_all (by decide)
      exact fun hmem => hne (hflags x hmem hx)
  | argument => exact ⟨ch '*', _, rfl, by decide⟩

/-- Wherever a directive is in a format, the interpreter prints what its conversion is in its width and its
precision, and goes on behind it. -/
theorem printerLoop_directive {format rest : List UInt8} {cur : Cursor}
    (h : format.drop cur.format = ch '%' :: (dir.chars ++ rest)) (val : Nat → Arg) (color : Int) (fuel : Nat)
    {σ : Type} (putc : σ → UInt8 → Int → Outcome σ) (p : σ) :
    printerLoop putc format val (fuel + 1) cur color p =
      printConversion putc (dir.specifier.conversion (flagMask 0 dir.flags) color dir.long
          (val (cur.val + dir.width.slots + dir.precisionSlots)))
        (dir.widthOf val cur.val) (dir.precisionOf val cur.val) p >>=
      printerLoop putc format val fuel ⟨cur.format + 1 + dir.chars.length, cur.val + dir.slots⟩ color := by
  -- where the parts of the directive start
  obtain ⟨i₀, hi₀⟩ : ∃ i, i = cur.format + 1 := ⟨_, rfl⟩
  obtain ⟨i₁, hi₁⟩ : ∃ i, i = i₀ + dir.flags.length := ⟨_, rfl⟩
  obtain ⟨i₂, hi₂⟩ : ∃ i, i = i₁ + dir.width.chars.length := ⟨_, rfl⟩
  obtain ⟨i₃, hi₃⟩ : ∃ i, i = i₂ + dir.precisionChars.length := ⟨_, rfl⟩
  obtain ⟨i₄, hi₄⟩ : ∃ i, i = i₃ + dir.lengths.length := ⟨_, rfl⟩
  have hflags : format.drop i₀ = dir.flags ++ dir.behindFlags rest := by
    rw [hi₀, ← dir.chars_append]
    exact drop_of_drop (show _ = [ch '%'] ++ _ from h)
  have hwidth : format.drop i₁ = dir.width.chars ++ dir.behindWidth rest := hi₁ ▸ drop_of_drop hflags
  have hprecision : format.drop i₂ = dir.precisionChars ++ dir.behindPrecision rest := hi₂ ▸ drop_of_drop hwidth
  have hlengths : format.drop i₃ = dir.lengths ++ (dir.specifier.char :: rest) := hi₃ ▸ drop_of_drop hprecision
  have hspecifier : format.drop i₄ = dir.specifier.char :: rest := hi₄ ▸ drop_of_drop hlengths
  obtain ⟨c₁, t₁, h₁, hc₁⟩ := dir.behindFlags_head rest
  obtain ⟨c₂, t₂, h₂, hc₂, -⟩ := dir.behindWidth_head rest
  obtain ⟨c₃, t₃, h₃, hc₃⟩ := dir.behindPrecision_head rest
  obtain ⟨hstops, hdot, -⟩ := letter_stops c₃ hc₃
  have hfuel := length_le_of_drop hflags
  obtain ⟨n, hn⟩ : ∃ n, format.length + 1 = n + 1 + dir.lengths.length := by
    have := length_le_of_drop hlengths
    exact ⟨format.length - dir.lengths.length, by omega⟩
  rw [h₁] at hflags
  rw [h₂] at hwidth
  rw [h₃] at hprecision
  have hread₁ : readFlags format (format.length + 1) i₀ 0 = .ok (i₁, flagMask 0 dir.flags) := by
    rw [hi₁]
    exact readFlags_eq 0 hflags dir.isFlag hc₁ (Nat.lt_succ_of_le hfuel)
  have hread₂ : readWidth format val (format.length + 1) ⟨i₁, cur.val⟩ =
      .ok (⟨i₂, cur.val + dir.width.slots⟩, dir.widthOf val cur.val) := by
    rw [hi₂]
    exact readWidth_eq val ⟨i₁, cur.val⟩ hwidth hc₂ dir.head (Nat.lt_succ_self _)
  have hread₃ : readPrecision format val (format.length + 1) ⟨i₂, cur.val + dir.width.slots⟩ =
      .ok (⟨i₃, cur.val + dir.width.slots + dir.precisionSlots⟩, dir.precisionOf val cur.val) := by
    rw [hi₃]
    exact readPrecision_eq val ⟨i₂, _⟩ hprecision hstops hdot (Nat.lt_succ_self _)
  have hread₄ := convert_lengths val ⟨i₃, cur.val + dir.width.slots + dir.precisionSlots⟩ (flagMask 0 dir.flags)
    color (n + 1) false hlengths dir.isLength
  have hread₅ := convert_specifier val ⟨i₄, cur.val + dir.width.slots + dir.precisionSlots⟩ (flagMask 0 dir.flags)
    color n dir.long dir.specifier hspecifier
  rw [← hn, Bool.false_or, ← hi₄, ← long, hread₅] at hread₄
  have hend : i₀ + dir.chars.length = i₄ + 1 := by
    rw [dir.length_chars]
    omega
  have hslots : cur.val + dir.slots = cur.val + dir.width.slots + dir.precisionSlots + 1 := by
    rw [slots, Nat.add_assoc, Nat.add_assoc, Nat.add_assoc]
  rw [printerLoop, charAt_of_drop h, ok_bind, if_neg (by decide), if_neg (not_not.2 rfl), ← hi₀, hread₁, ok_bind,
    hread₂, ok_bind, hread₃, ok_bind, hread₄, ok_bind, Specifier.conversion_done, if_neg Bool.false_ne_true,
    Specifier.conversion_color, hend, hslots]

end Directive

end MemoryManagement.Shared
