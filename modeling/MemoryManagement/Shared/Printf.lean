import Mathlib.Algebra.Group.Int.Defs
import Mathlib.Algebra.Group.Nat.Defs
import Mathlib.Algebra.Ring.Nat

/-!
# The format interpreter

Translation of `printer_vprintf` of `shared/lib.c` and of what it uses. A format is the memory that it
lies in, up to and including its NUL, and an index into it; a read behind the NUL is an access outside
(`Fault`). The slots of a `va_list` are numbered. `int` and `long` arithmetic wraps.
-/

set_option autoImplicit false

namespace MemoryManagement.Shared

/-! ## Memory -/

/-- What library code must not do: access memory outside an object, or go on forever. -/
inductive Fault where
  | outside
  | endless
  deriving DecidableEq, Repr

/-- The result of library code. -/
abbrev Outcome (α : Type) := Except Fault α

/-- The code of a character. -/
def ch (c : Char) : UInt8 := UInt8.ofNat c.toNat

/-- `s[i]`. -/
def charAt (s : List UInt8) (i : Nat) : Outcome UInt8 :=
  match s[i]? with
  | some c => .ok c
  | none => .error .outside

/-- `s[i] = c`. -/
def store (s : List UInt8) (i : Nat) (c : UInt8) : Outcome (List UInt8) :=
  if i < s.length then .ok (s.set i c) else .error .outside

/-- The characters from index `i` up to the first NUL. -/
def cString (s : List UInt8) (i : Nat) : List UInt8 := (s.drop i).takeWhile fun c => c ≠ 0

/-- `strchr(s, c)`, the position of the first `c`. -/
def strchr (c : UInt8) : List UInt8 → Option Nat
  | [] => if c = 0 then some 0 else none
  | x :: s => if x = c then some 0 else (strchr c s).map (· + 1)

/-! ## Values -/

/-- Conversion to an `int`. -/
def toInt (x : Int) : Int := x.bmod (2 ^ 32)

/-- Conversion to a `long`. -/
def toLong (x : Int) : Int := x.bmod (2 ^ 64)

/-- A slot of a `va_list`: a 64-bit word, and the characters before the NUL of a string that starts there. -/
structure Arg where
  word : Nat
  string : List UInt8
  noNul : 0 ∉ string

/-- `va_arg(val, int)`. -/
def Arg.int (a : Arg) : Int := toInt a.word

/-- `va_arg(val, long)`. -/
def Arg.long (a : Arg) : Int := toLong a.word

/-- `va_arg(val, unsigned)`. -/
def Arg.unsigned (a : Arg) : Nat := a.word % 2 ^ 32

/-- `va_arg(val, unsigned long)` and `va_arg(val, void*)`. -/
def Arg.unsignedLong (a : Arg) : Nat := a.word % 2 ^ 64

/-! ## Numbers -/

def upperDigits : List UInt8 :=
  [ '0', '1', '2', '3', '4', '5', '6', '7', '8', '9', 'A', 'B', 'C', 'D', 'E', 'F'].map ch

def lowerDigits : List UInt8 :=
  [ '0', '1', '2', '3', '4', '5', '6', '7', '8', '9', 'a', 'b', 'c', 'd', 'e', 'f'].map ch

/-- `*--numbuf_end = c`. -/
def storeBefore (numbuf : List UInt8) (numbufEnd : Nat) (c : UInt8) : Outcome (List UInt8 × Nat) :=
  if numbufEnd = 0 then .error .outside
  else do
    let numbuf ← store numbuf (numbufEnd - 1) c
    .ok (numbuf, numbufEnd - 1)

/-- The loop of `fill_numbuf`; `val` gets smaller in each round. -/
def fillDigits (digits : List UInt8) (base : Nat) : Nat → List UInt8 → Nat → Nat →
    Outcome (List UInt8 × Nat)
  | 0, _, _, _ => .error .endless
  | fuel + 1, numbuf, numbufEnd, val => do
      let stored ← storeBefore numbuf numbufEnd (digits.getD (val % base) 0)
      if val / base ≠ 0 then fillDigits digits base fuel stored.1 stored.2 (val / base) else .ok stored

/-- `fill_numbuf(numbuf_end, val, base)`: the buffer, and where the number starts in it. -/
def fillNumbuf (numbuf : List UInt8) (numbufEnd val : Nat) (base : Int) : Outcome (List UInt8 × Nat) := do
  let digits := if base < 0 then lowerDigits else upperDigits
  let stored ← storeBefore numbuf numbufEnd 0
  fillDigits digits base.natAbs (val + 1) stored.1 stored.2 val

/-! ## Directives -/

abbrev FLAG_ALT : Nat := 1 <<< 0
abbrev FLAG_ZERO : Nat := 1 <<< 1
abbrev FLAG_LEFTJUSTIFY : Nat := 1 <<< 2
abbrev FLAG_SPACEPOSITIVE : Nat := 1 <<< 3
abbrev FLAG_PLUSPOSITIVE : Nat := 1 <<< 4
abbrev FLAG_NUMERIC : Nat := 1 <<< 5
abbrev FLAG_SIGNED : Nat := 1 <<< 6
abbrev FLAG_NEGATIVE : Nat := 1 <<< 7
abbrev FLAG_ALT2 : Nat := 1 <<< 8

/-- `flag_chars`. -/
def flagChars : List UInt8 := [ '#', '0', '-', ' ', '+'].map ch

abbrev NUMBUFSIZ : Nat := 24

section Directive

variable (format : List UInt8) (val : Nat → Arg)

/-- The loop over the flags, from index `i`. -/
def readFlags : Nat → Nat → Nat → Outcome (Nat × Nat)
  | 0, _, _ => .error .endless
  | fuel + 1, i, flags => do
      let c ← charAt format i
      if c = 0 then .ok (i, flags)
      else
        match strchr c flagChars with
        | some k => readFlags fuel (i + 1) (flags ||| 1 <<< k)
        | none => .ok (i, flags)

/-- The loop over the digits of a width or a precision. -/
def readNumber : Nat → Nat → Int → Outcome (Nat × Int)
  | 0, _, _ => .error .endless
  | fuel + 1, i, value => do
      let c ← charAt format i
      if ch '0' ≤ c ∧ c ≤ ch '9' then readNumber fuel (i + 1) (toInt (10 * value + c.toNat - 48))
      else .ok (i, value)

/-- Where the format and the arguments are read next. -/
structure Cursor where
  format : Nat
  val : Nat

/-- The width, -1 if there is none. -/
def readWidth (fuel : Nat) (cur : Cursor) : Outcome (Cursor × Int) := do
  let c ← charAt format cur.format
  if ch '1' ≤ c ∧ c ≤ ch '9' then do
    let number ← readNumber format fuel cur.format 0
    .ok (⟨number.1, cur.val⟩, number.2)
  else if c = ch '*' then .ok (⟨cur.format + 1, cur.val + 1⟩, (val cur.val).int)
  else .ok (cur, -1)

/-- The precision, -1 if there is none. -/
def readPrecision (fuel : Nat) (cur : Cursor) : Outcome (Cursor × Int) := do
  let c ← charAt format cur.format
  if c = ch '.' then do
    let c ← charAt format (cur.format + 1)
    let read ←
      if ch '0' ≤ c ∧ c ≤ ch '9' then do
        let number ← readNumber format fuel (cur.format + 1) 0
        .ok ((⟨number.1, cur.val⟩ : Cursor), number.2)
      else if c = ch '*' then .ok (⟨cur.format + 2, cur.val + 1⟩, (val cur.val).int)
      else .ok (⟨cur.format + 1, cur.val⟩, -1)
    .ok (read.1, if read.2 < 0 then 0 else read.2)
  else .ok (cur, -1)

/-- What the switch on the conversion character leaves in the variables of a directive; `done` if it goes
to the label. -/
structure Conversion where
  flags : Nat
  base : Int
  num : Nat
  data : List UInt8
  color : Int
  done : Bool

/-- The case of `d` and `i`. -/
def formatSigned (flags : Nat) (color : Int) (length : Bool) (a : Arg) : Conversion :=
  let x := if length then a.long else a.int
  let negative := if x < 0 then FLAG_NEGATIVE else 0
  let num := ((if negative ≠ 0 then toLong (-x) else x) % 2 ^ 64).toNat
  ⟨flags ||| (FLAG_NUMERIC ||| FLAG_SIGNED ||| negative), 10, num, [], color, false⟩

/-- The case of `p`. -/
def formatPointer (flags : Nat) (color : Int) (a : Arg) : Conversion :=
  ⟨flags ||| (FLAG_ALT ||| FLAG_ALT2 ||| FLAG_NUMERIC), -16, a.unsignedLong, [], color, false⟩

/-- `format_unsigned`. -/
def formatUnsigned (flags : Nat) (base color : Int) (length : Bool) (a : Arg) : Conversion :=
  ⟨flags ||| FLAG_NUMERIC, base, if length then a.unsignedLong else a.unsigned, [], color, false⟩

/-- The switch. The index of the format is that of the last character of the directive. -/
def convert (flags : Nat) (color : Int) : Nat → Bool → Cursor → Outcome (Cursor × Conversion)
  | 0, _, _ => .error .endless
  | fuel + 1, length, cur => do
      let c ← charAt format cur.format
      let a := val cur.val
      let taken : Cursor := ⟨cur.format, cur.val + 1⟩
      if c = ch 'l' ∨ c = ch 'z' then convert flags color fuel true ⟨cur.format + 1, cur.val⟩
      else if c = ch 'd' ∨ c = ch 'i' then .ok (taken, formatSigned flags color length a)
      else if c = ch 'u' then .ok (taken, formatUnsigned flags 10 color length a)
      else if c = ch 'x' then .ok (taken, formatUnsigned flags (-16) color length a)
      else if c = ch 'X' then .ok (taken, formatUnsigned flags 16 color length a)
      else if c = ch 'p' then .ok (taken, formatPointer flags color a)
      else if c = ch 's' then .ok (taken, ⟨flags, 10, 0, a.string, color, false⟩)
      else if c = ch 'C' then .ok (taken, ⟨flags, 10, 0, [], a.int, true⟩)
      else if c = ch 'c' then
        .ok (taken, ⟨flags, 10, 0, cString [UInt8.ofNat (a.word % 256), 0] 0, color, false⟩)
      else if c = 0 then
        -- the directive is cut short: back to the character before the NUL
        .ok (⟨cur.format - 1, cur.val⟩, ⟨flags, 10, 0, cString [ch '%', 0] 0, color, false⟩)
      else .ok (cur, ⟨flags, 10, 0, cString [c, 0] 0, color, false⟩)

end Directive

/-! ## Output -/

section Output

variable {σ : Type} (putc : σ → UInt8 → Int → Outcome σ)

/-- Characters one after the other. -/
def putAll (color : Int) : List UInt8 → σ → Outcome σ
  | [], p => .ok p
  | c :: s, p => do
      let p ← putc p c color
      putAll color s p

/-- The sign or the base, before the digits. -/
def prefixOf (conv : Conversion) : List UInt8 :=
  if conv.flags &&& FLAG_NUMERIC ≠ 0 ∧ conv.flags &&& FLAG_SIGNED ≠ 0 then
    if conv.flags &&& FLAG_NEGATIVE ≠ 0 then [ch '-']
    else if conv.flags &&& FLAG_PLUSPOSITIVE ≠ 0 then [ch '+']
    else if conv.flags &&& FLAG_SPACEPOSITIVE ≠ 0 then [ch ' ']
    else []
  else if conv.flags &&& FLAG_NUMERIC ≠ 0 ∧ conv.flags &&& FLAG_ALT ≠ 0 ∧ (conv.base = 16 ∨ conv.base = -16) ∧
      (conv.num ≠ 0 ∨ conv.flags &&& FLAG_ALT2 ≠ 0) then
    if conv.base = -16 then [ch '0', ch 'x'] else [ch '0', ch 'X']
  else []

/-- The digits of a number, or the characters of a string. -/
def dataOf (conv : Conversion) : Outcome (List UInt8) :=
  if conv.flags &&& FLAG_NUMERIC ≠ 0 then do
    let filled ← fillNumbuf (List.replicate NUMBUFSIZ 0) NUMBUFSIZ conv.num conv.base
    .ok (cString filled.1 filled.2)
  else .ok conv.data

/-- `len`: `strnlen(data, precision)` or `strlen(data)`. -/
def lenOf (conv : Conversion) (precision : Int) (data : List UInt8) : Int :=
  if 0 ≤ precision ∧ conv.flags &&& FLAG_NUMERIC = 0 then toInt (min data.length precision.toNat : Nat)
  else toInt data.length

/-- `zeros`. -/
def zerosOf (conv : Conversion) (width precision len : Int) (prefixLength : Nat) : Int :=
  if conv.flags &&& FLAG_NUMERIC ≠ 0 ∧ 0 ≤ precision then
    if len < precision then precision - len else 0
  else if conv.flags &&& FLAG_NUMERIC ≠ 0 ∧ conv.flags &&& FLAG_ZERO ≠ 0 ∧
      conv.flags &&& FLAG_LEFTJUSTIFY = 0 ∧ len + prefixLength < width then
    toInt (width - len - prefixLength)
  else 0

/-- The end of a directive: what is before the data, the data, and what is behind it. -/
def printConversion (conv : Conversion) (width precision : Int) (p : σ) : Outcome σ := do
  let data ← dataOf conv
  let before := prefixOf conv
  let len := lenOf conv precision data
  let zeros := zerosOf conv width precision len before.length
  -- the difference is computed in `size_t` and stored in an `int`
  let width := toInt (width - (len + zeros + before.length))
  let left := if conv.flags &&& FLAG_LEFTJUSTIFY = 0 then width.toNat else 0
  let p ← putAll putc conv.color (List.replicate left (ch ' ')) p
  let p ← putAll putc conv.color before p
  let p ← putAll putc conv.color (List.replicate zeros.toNat (ch '0')) p
  let p ← putAll putc conv.color (data.take len.toNat) p
  putAll putc conv.color (List.replicate (width.toNat - left) (ch ' ')) p

/-- The loop of `printer_vprintf` over the format. -/
def printerLoop (format : List UInt8) (val : Nat → Arg) : Nat → Cursor → Int → σ → Outcome σ
  | 0, _, _, _ => .error .endless
  | fuel + 1, cur, color, p => do
      let c ← charAt format cur.format
      if c = 0 then .ok p
      else if c ≠ ch '%' then do
        let p ← putc p c color
        printerLoop format val fuel ⟨cur.format + 1, cur.val⟩ color p
      else do
        let flags ← readFlags format (format.length + 1) (cur.format + 1) 0
        let width ← readWidth format val (format.length + 1) ⟨flags.1, cur.val⟩
        let precision ← readPrecision format val (format.length + 1) width.1
        let conv ← convert format val flags.2 color (format.length + 1) false precision.1
        let p ← if conv.2.done then .ok p else printConversion putc conv.2 width.2 precision.2 p
        printerLoop format val fuel ⟨conv.1.format + 1, conv.1.val⟩ conv.2.color p

/-- `printer_vprintf(p, color, format, val)`. Each round takes at least one character, so that more rounds
than there are characters are enough. -/
def printerVprintf (color : Int) (format : List UInt8) (val : Nat → Arg) (p : σ) : Outcome σ :=
  printerLoop putc format val (format.length + 1) ⟨0, 0⟩ color p

end Output

end MemoryManagement.Shared
