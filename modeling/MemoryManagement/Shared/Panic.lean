import MemoryManagement.Shared.Console
import Mathlib.Data.List.TakeDrop

/-!
# Panic messages

Translation of `memcpy`, `strcpy` and `vsnprintf` of `shared/lib.c` and of `kernel_panic` of
`uspace/process.c`. The buffer is the list of its characters, and `store` fails outside it. Every function
here replaces the characters of its buffer from some index on (`overwrite`).
-/

set_option autoImplicit false

namespace MemoryManagement.Shared

/-! ## Strings -/

/-- `memcpy(&dst[d], &src[s], n)`. -/
def memcpy (src : List UInt8) : List UInt8 → Nat → Nat → Nat → Outcome (List UInt8)
  | dst, _, _, 0 => .ok dst
  | dst, d, s, n + 1 => do
      let c ← charAt src s
      let dst ← store dst d c
      memcpy src dst (d + 1) (s + 1) n

/-- `strcpy(&dst[d], src)`, which reads `src` up to its NUL. -/
def strcpy : List UInt8 → List UInt8 → Nat → Outcome (List UInt8)
  | [], _, _ => .error .outside
  | c :: src, dst, d => do
      let dst ← store dst d c
      if c ≠ 0 then strcpy src dst (d + 1) else .ok dst

/-- `struct string_printer`: a buffer, and the indices `s` and `end` in it. -/
structure StringPrinter where
  buf : List UInt8
  s : Nat
  bufEnd : Nat

/-- `string_putc(p, c, color)`. -/
def stringPutc (sp : StringPrinter) (c : UInt8) (_color : Int) : Outcome StringPrinter :=
  if sp.s < sp.bufEnd then do
    let buf ← store sp.buf sp.s c
    .ok ⟨buf, sp.s + 1, sp.bufEnd⟩
  else .ok sp

/-- `vsnprintf(&buf[s], size, format, val)`: the buffer, and what is returned. -/
def vsnprintf (buf : List UInt8) (s size : Nat) (format : List UInt8) (val : Nat → Arg) :
    Outcome (List UInt8 × Int) :=
  if size ≠ 0 then do
    let sp ← printerVprintf stringPutc 0 format val ⟨buf, s, s + size - 1⟩
    let buf ← store sp.buf sp.s 0
    .ok (buf, toInt (sp.s - s))
  else .ok (buf, 0)

/-! ## A panic -/

/-- `sizeof(buf)`. -/
abbrev PANIC_SIZE : Nat := 160

/-- `"PANIC: "`. -/
def panicPrefix : List UInt8 := [ 'P', 'A', 'N', 'I', 'C', ':', ' '].map ch

/-- `CPOS(row, col)`. -/
def cpos (row column : Int) : Int := row * 80 + column

/-- The newline at the end of the message, if it has none. -/
def endLine (buf : List UInt8) (len : Int) : Outcome (List UInt8) :=
  if 0 < len then do
    let last ← charAt buf (len - 1).toNat
    if last ≠ newline then
      -- one character before the end of the buffer there is no room for a newline and a NUL
      strcpy [newline, 0] buf (len - if len = (PANIC_SIZE : Int) - 1 then 1 else 0).toNat
    else .ok buf
  else .ok buf

/-- `kernel_panic(format, …)` up to its last call: the message for `panic`, and the console. -/
def kernelPanic (buf : List UInt8) (console : List UInt16) (format : List UInt8) (val : Nat → Arg) :
    Outcome (List UInt8 × List UInt16) := do
  let buf ← memcpy (panicPrefix ++ [0]) buf 0 0 7
  let printed ← vsnprintf buf 7 (PANIC_SIZE - 7) format val
  let buf ← endLine printed.1 (toInt (printed.2 + 7))
  let shown ← consoleVprintf console (cpos 23 0) 0xC000 [ch '%', ch 's', 0]
    (fun _ => ⟨0, cString buf 0, not_mem_cString buf 0⟩)
  .ok (buf, shown.1)

/-! ## Characters are replaced -/

section Overwrite

variable {buf s t : List UInt8} {i : Nat}

/-- The buffer with the characters `s` from index `i` on. -/
def overwrite (buf : List UInt8) (i : Nat) (s : List UInt8) : List UInt8 :=
  buf.take i ++ s ++ buf.drop (i + s.length)

theorem overwrite_nil (buf : List UInt8) (i : Nat) : overwrite buf i [] = buf := by
  rw [overwrite, List.append_nil]
  exact List.take_append_drop i buf

/-- Behind the characters that are kept. -/
theorem overwrite_behind (before rest s : List UInt8) :
    overwrite (before ++ rest) before.length s = before ++ s ++ rest.drop s.length := by
  rw [overwrite, List.take_left, List.drop_append]
  rw [List.drop_eq_nil_of_le (Nat.le_add_right _ _), List.nil_append, Nat.add_sub_cancel_left]

theorem store_eq_overwrite (h : i < buf.length) (c : UInt8) : store buf i c = .ok (overwrite buf i [c]) := by
  rw [store_of_lt h, List.set_eq_take_append_cons_drop, if_pos h, overwrite]
  rw [List.append_assoc, List.singleton_append, List.length_singleton]

/-- More characters are written behind the ones before. -/
theorem overwrite_append (h : i + s.length ≤ buf.length) :
    overwrite (overwrite buf i s) (i + s.length) t = overwrite buf i (s ++ t) := by
  have hlength : (buf.take i ++ s).length = i + s.length := by
    rw [List.length_append, List.length_take_of_le (by omega)]
  have hbehind := overwrite_behind (buf.take i ++ s) (buf.drop (i + s.length)) t
  rw [hlength, ← overwrite] at hbehind
  rw [hbehind, List.drop_drop, overwrite, List.length_append, Nat.add_assoc, List.append_assoc (buf.take i)]

theorem length_overwrite (h : i + s.length ≤ buf.length) : (overwrite buf i s).length = buf.length := by
  rw [overwrite, List.length_append, List.length_append, List.length_take_of_le (by omega), List.length_drop]
  omega

theorem memcpy_eq (src : List UInt8) {n j : Nat} (hsrc : j + n ≤ src.length) (hdst : i + n ≤ buf.length) :
    memcpy src buf i j n = .ok (overwrite buf i ((src.drop j).take n)) := by
  induction n generalizing buf i j with
  | zero => rw [memcpy, List.take_zero, overwrite_nil]
  | succ n ih =>
      have hj : j < src.length := by omega
      have hi : i < buf.length := by omega
      have hone : i + [src[j]].length ≤ buf.length := hi
      rw [memcpy, charAt_of_lt hj, ok_bind, store_eq_overwrite hi, ok_bind]
      rw [ih (by omega) (by rw [length_overwrite hone]; omega)]
      rw [List.drop_eq_getElem_cons hj, List.take_succ_cons]
      exact congrArg Except.ok (overwrite_append hone)

theorem strcpy_eq (hs : 0 ∉ s) (h : i + s.length < buf.length) :
    strcpy (s ++ [0]) buf i = .ok (overwrite buf i (s ++ [0])) := by
  induction s generalizing buf i with
  | nil =>
      rw [List.nil_append, strcpy, store_eq_overwrite (show i < buf.length from h), ok_bind]
      exact if_neg (not_not.2 rfl)
  | cons c s ih =>
      obtain ⟨hc, hs⟩ := not_or.1 (List.mem_cons.not.1 hs)
      rw [List.length_cons] at h
      have hone : i + [c].length ≤ buf.length := by
        rw [List.length_singleton]
        omega
      rw [List.cons_append, strcpy, store_eq_overwrite (by omega), ok_bind, if_pos (Ne.symm hc)]
      rw [ih hs (by rw [length_overwrite hone]; omega)]
      exact congrArg Except.ok (overwrite_append hone)

/-- A string printer keeps the characters that fit. -/
theorem emit_stringPutc (text : List (UInt8 × Int)) {e : Nat} (hi : i ≤ e) (he : e < buf.length) :
    emit stringPutc text ⟨buf, i, e⟩ = .ok ⟨overwrite buf i ((text.map Prod.fst).take (e - i)),
      i + min text.length (e - i), e⟩ := by
  induction text generalizing buf i with
  | nil =>
      rw [List.map_nil, List.take_nil, overwrite_nil, List.length_nil, Nat.zero_min]
      rfl
  | cons x text ih =>
      rw [emit, List.foldlM_cons, stringPutc]
      by_cases hroom : i < e
      · have hone : i + [x.1].length ≤ buf.length := by
          rw [List.length_singleton]
          omega
        obtain ⟨k, hk⟩ : ∃ k, e - i = k + 1 := ⟨e - i - 1, by omega⟩
        have hk' : e - (i + 1) = k := by omega
        rw [if_pos hroom, store_eq_overwrite (Nat.lt_trans hroom he), ok_bind, ok_bind]
        have hend : e < (overwrite buf i [x.1]).length := by
          rw [length_overwrite hone]
          exact he
        have hrest := ih hroom hend
        rw [emit, hk'] at hrest
        rw [hrest, hk, List.map_cons, List.take_succ_cons, List.length_cons]
        rw [show overwrite (overwrite buf i [x.1]) (i + 1) _ = _ from overwrite_append hone]
        rw [List.singleton_append, Nat.add_min_add_right, Nat.succ_add]
        rfl
      · have hfull : e - i = 0 := by omega
        have hrest := ih hi he
        rw [hfull, List.take_zero, Nat.min_zero] at hrest ⊢
        rw [if_neg hroom]
        exact hrest

end Overwrite

/-! ## Formatted text -/

/-- The characters that `printer_vprintf` hands to its printer. -/
def formatted (format : List UInt8) (val : Nat → Arg) : Outcome (List UInt8) :=
  printerVprintf (fun s c _ => .ok (s ++ [c])) 0 format val []

/-- A format without directives is printed as it stands. -/
theorem formatted_plain {chars : List UInt8} (hchars : 0 ∉ chars) (hplain : ch '%' ∉ chars) (val : Nat → Arg) :
    formatted (chars ++ [0]) val = .ok chars := by
  have hloop : ∀ fuel i (s : List UInt8), i ≤ chars.length → chars.length - i < fuel →
      printerLoop (fun s c _ => .ok (s ++ [c])) (chars ++ [0]) val fuel ⟨i, 0⟩ 0 s = .ok (s ++ chars.drop i) := by
    intro fuel
    induction fuel with
    | zero => exact fun i s _ hfuel => absurd hfuel (Nat.not_lt_zero _)
    | succ fuel ih =>
        intro i s hi hfuel
        obtain ⟨c, hc, hnul⟩ := charAt_format hchars hi
        rw [printerLoop, hc, ok_bind]
        by_cases hend : c = 0
        · rw [if_pos hend, hnul.1 hend, List.drop_length, List.append_nil]
        · have hlt : i < chars.length := Nat.lt_of_le_of_ne hi fun e => hend (hnul.2 e)
          have hchar : chars[i] = c := by
            rw [charAt_of_lt (by rw [List.length_append]; omega), List.getElem_append_left hlt] at hc
            exact Except.ok.inj hc
          have hother : c ≠ ch '%' := by
            rintro rfl
            exact hplain (hchar ▸ List.getElem_mem hlt)
          rw [if_neg hend, if_pos hother, ok_bind, ih (i + 1) (s ++ [c]) hlt (by omega),
            List.drop_eq_getElem_cons hlt, hchar, List.append_assoc, List.singleton_append]
  have hall := hloop ((chars ++ [0]).length + 1) 0 [] (Nat.zero_le _) (by rw [List.length_append]; omega)
  rwa [List.drop_zero, List.nil_append] at hall

theorem emit_chars (text : List (UInt8 × Int)) (s : List UInt8) :
    emit (fun s c _ => .ok (s ++ [c])) text s = .ok (s ++ text.map Prod.fst) := by
  induction text generalizing s with
  | nil =>
      rw [List.map_nil, List.append_nil]
      rfl
  | cons x text ih =>
      rw [emit, List.foldlM_cons, ok_bind]
      have hrest := ih (s ++ [x.1])
      rw [List.append_assoc] at hrest
      exact hrest

/-- `vsnprintf` stores the characters that fit and a NUL, and returns how many they are. -/
theorem vsnprintf_eq {chars : List UInt8} (hchars : 0 ∉ chars) (val : Nat → Arg) :
    ∃ text, formatted (chars ++ [0]) val = .ok text ∧ 0 ∉ text ∧
      ∀ (buf : List UInt8) (s size : Nat), 0 < size → s + size ≤ buf.length →
        vsnprintf buf s size (chars ++ [0]) val =
          .ok (overwrite buf s (text.take (size - 1) ++ [0]), toInt (min text.length (size - 1) : Nat)) := by
  obtain ⟨text, hnonzero, hemits⟩ := printerVprintf_emits hchars val 0
  refine ⟨text.map Prod.fst, ?_, ?_, fun buf s size hsize hroom => ?_⟩
  · rw [formatted, hemits, emit_chars, List.nil_append]
  · intro hmem
    obtain ⟨x, hx, hzero⟩ := List.mem_map.1 hmem
    exact hnonzero x hx hzero
  · have hend : s + size - 1 - s = size - 1 := by omega
    have hkept : ((text.map Prod.fst).take (size - 1)).length = min text.length (size - 1) := by
      rw [List.length_take, List.length_map, Nat.min_comm]
    have hfits : s + ((text.map Prod.fst).take (size - 1)).length ≤ buf.length := by omega
    rw [vsnprintf, if_pos (Nat.ne_of_gt hsize), hemits, emit_stringPutc text (by omega) (by omega), ok_bind, hend]
    simp only
    have hreturned : ((s + min text.length (size - 1) : Nat) : Int) - s = (min text.length (size - 1) : Nat) := by
      omega
    rw [hreturned, ← hkept, store_eq_overwrite (by rw [length_overwrite hfits]; omega), overwrite_append hfits,
      ok_bind, hkept, List.length_map]

/-! ## The message -/

/-- The message of a panic: it has a newline at its end, in place of the last character if there is no room. -/
def panicMessage (text : List UInt8) : List UInt8 :=
  let body := panicPrefix ++ text.take 152
  if body.getLast? = some newline then body
  else if body.length = 159 then body.dropLast ++ [newline]
  else body ++ [newline]

theorem length_panicMessage (text : List UInt8) : (panicMessage text).length < PANIC_SIZE := by
  have hbody : (panicPrefix ++ text.take 152).length ≤ 159 := by
    rw [List.length_append, List.length_take]
    exact Nat.add_le_add_left (Nat.min_le_left _ _) 7
  rw [panicMessage]
  split
  · exact Nat.lt_succ_of_le hbody
  · split
    · rw [List.length_append, List.length_dropLast, List.length_singleton]
      show _ < 160
      omega
    · rw [List.length_append, List.length_singleton]
      show _ < 160
      omega

theorem not_mem_panicMessage {text : List UInt8} (h : 0 ∉ text) : 0 ∉ panicMessage text := by
  have hbody : 0 ∉ panicPrefix ++ text.take 152 := by
    rw [List.mem_append, not_or]
    exact ⟨by decide, fun hmem => h (List.mem_of_mem_take hmem)⟩
  have hnewline : ∀ s : List UInt8, 0 ∉ s → 0 ∉ s ++ [newline] := by
    intro s hs
    rw [List.mem_append, not_or]
    exact ⟨hs, by decide⟩
  rw [panicMessage]
  split
  · exact hbody
  · split
    · exact hnewline _ fun hmem => hbody (List.dropLast_subset _ hmem)
    · exact hnewline _ hbody

/-- What `kernel_panic` does to the end of its message: a newline if there is none. -/
theorem endLine_spec {body rest : List UInt8} (hbody : body ≠ []) (hlength : body.length ≤ 159)
    (hbuf : (body ++ 0 :: rest).length = PANIC_SIZE) :
    ∃ buf', endLine (body ++ 0 :: rest) body.length = .ok buf' ∧ buf'.length = PANIC_SIZE ∧ ∃ rest',
      buf' = (if body.getLast? = some newline then body
        else if body.length = 159 then body.dropLast ++ [newline] else body ++ [newline]) ++ 0 :: rest' := by
  obtain ⟨init, last, rfl⟩ : ∃ init last, body = init ++ [last] :=
    ⟨_, _, (List.dropLast_concat_getLast hbody).symm⟩
  have hinit : (init ++ [last]).length = init.length + 1 := List.length_append
  have hlast : charAt (init ++ [last] ++ 0 :: rest) init.length = .ok last := by
    rw [charAt, List.append_assoc, List.getElem?_append_right (Nat.le_refl _), Nat.sub_self]
    rfl
  rw [List.length_append, hinit, List.length_cons, PANIC_SIZE] at hbuf
  have hindex : (((init ++ [last]).length : Int) - 1).toNat = init.length := by omega
  rw [endLine, if_pos (by omega), hindex, hlast, ok_bind, List.getLast?_concat, List.dropLast_concat]
  by_cases hend : last = newline
  · rw [if_neg (not_not.2 hend), if_pos (congrArg some hend)]
    refine ⟨_, rfl, ?_, rest, rfl⟩
    rw [List.length_append, hinit, List.length_cons, hbuf]
  rw [if_pos hend, if_neg fun he => hend (Option.some.inj he)]
  -- the newline and its terminator are copied over two bytes
  have hstrcpy : ∀ (before after : List UInt8), 2 ≤ after.length →
      strcpy [newline, 0] (before ++ after) before.length = .ok (before ++ [newline] ++ 0 :: after.drop 2) := by
    intro before after hafter
    have hroom : before.length + [newline].length < (before ++ after).length := by
      rw [List.length_append, List.length_singleton]
      omega
    have hcopy := strcpy_eq (show 0 ∉ [newline] by decide) hroom
    rw [overwrite_behind, List.append_assoc] at hcopy
    rw [List.append_assoc]
    exact hcopy
  by_cases hfull : (init ++ [last]).length = 159
  · -- no room: the newline is written over the last character
    have hpos : (((init ++ [last]).length : Int) -
        if ((init ++ [last]).length : Int) = (PANIC_SIZE : Int) - 1 then 1 else 0).toNat = init.length := by
      rw [hfull]
      exact Nat.succ.inj (hfull.symm.trans hinit)
    rw [if_pos hfull, hpos]
    refine ⟨_, ?_, ?_, rest, rfl⟩
    · rw [List.append_assoc init]
      exact hstrcpy init (last :: 0 :: rest) (Nat.le_add_left 2 _)
    · rw [List.length_append, List.length_append, List.length_singleton, List.length_cons, hbuf]
  · have hpos : (((init ++ [last]).length : Int) -
        if ((init ++ [last]).length : Int) = (PANIC_SIZE : Int) - 1 then 1 else 0).toNat =
          (init ++ [last]).length := by
      have hne : ¬((init ++ [last]).length : Int) = (PANIC_SIZE : Int) - 1 := by
        rw [PANIC_SIZE]
        omega
      rw [if_neg hne, Int.sub_zero, Int.toNat_natCast]
    rw [if_neg hfull, hpos]
    refine ⟨_, hstrcpy (init ++ [last]) (0 :: rest) ?_, ?_, _, rfl⟩
    · rw [List.length_cons]
      omega
    · rw [List.length_append, List.length_append, hinit, List.length_singleton, List.length_cons,
        List.drop_succ_cons, List.length_drop, PANIC_SIZE]
      omega

/-- Before its newline, the buffer of a panic. -/
theorem vsnprintf_panic {chars : List UInt8} (hchars : 0 ∉ chars) (val : Nat → Arg) :
    ∃ text, formatted (chars ++ [0]) val = .ok text ∧ 0 ∉ text ∧
      ∀ buf : List UInt8, buf.length = PANIC_SIZE → ∃ rest,
        (panicPrefix ++ text.take 152 ++ 0 :: rest).length = PANIC_SIZE ∧
        vsnprintf (overwrite buf 0 panicPrefix) 7 (PANIC_SIZE - 7) (chars ++ [0]) val =
          .ok (panicPrefix ++ text.take 152 ++ 0 :: rest, (min text.length 152 : Nat)) := by
  obtain ⟨text, htext, hnonzero, hcode⟩ := vsnprintf_eq hchars val
  refine ⟨text, htext, hnonzero, fun buf hbuf => ?_⟩
  have hsign : 0 + panicPrefix.length ≤ buf.length := by
    rw [hbuf]
    decide
  have hkept : (text.take 152 ++ [0]).length ≤ 153 := by
    rw [List.length_append, List.length_singleton]
    exact Nat.succ_le_succ (List.length_take_le 152 text)
  have hwhole : 0 + (panicPrefix ++ (text.take 152 ++ [0])).length ≤ buf.length := by
    rw [List.length_append, hbuf, Nat.zero_add]
    exact Nat.add_le_add_left hkept 7
  have hlength := length_overwrite hwhole
  have hbody : overwrite buf 0 (panicPrefix ++ (text.take 152 ++ [0])) =
      panicPrefix ++ text.take 152 ++ 0 :: buf.drop (0 + (panicPrefix ++ (text.take 152 ++ [0])).length) := by
    rw [overwrite, List.take_zero, List.nil_append, ← List.append_assoc, List.append_assoc _ [0]]
    rfl
  refine ⟨buf.drop (0 + (panicPrefix ++ (text.take 152 ++ [0])).length), ?_, ?_⟩
  · rw [← hbody, hlength, hbuf]
  · rw [hcode _ 7 (PANIC_SIZE - 7) (by decide) ?_]
    · rw [← hbody, ← overwrite_append hsign]
      have hmin : min text.length (PANIC_SIZE - 7 - 1) ≤ 152 := Nat.min_le_right _ _
      rw [toInt_of_mem (by omega) (by omega)]
      rfl
    · rw [length_overwrite hsign, hbuf]
      decide

/-- Whatever the format and its arguments are, the message of a panic fits the buffer: it is `"PANIC: "`,
the first 152 characters of the formatted text and a newline. `vsnprintf` returns how many characters it
stored. -/
theorem kernel_panic_message {buf : List UInt8} (hbuf : buf.length = PANIC_SIZE) {console : List UInt16}
    (hconsole : console.length = CONSOLE_CELLS) {chars : List UInt8} (hchars : 0 ∉ chars) (val : Nat → Arg) :
    ∃ text, formatted (chars ++ [0]) val = .ok text ∧
      (∃ buf', vsnprintf (overwrite buf 0 panicPrefix) 7 (PANIC_SIZE - 7) (chars ++ [0]) val =
          .ok (buf', (min text.length 152 : Nat)) ∧
        buf'.length = PANIC_SIZE ∧ cString buf' 0 = panicPrefix ++ text.take 152) ∧
      ∃ buf' console', kernelPanic buf console (chars ++ [0]) val = .ok (buf', console') ∧
        buf'.length = PANIC_SIZE ∧ cString buf' 0 = panicMessage text ∧
        (panicMessage text).length < PANIC_SIZE := by
  obtain ⟨text, htext, hnonzero, hprinted⟩ := vsnprintf_panic hchars val
  obtain ⟨rest, hlength, hcode⟩ := hprinted buf hbuf
  have hbody : 0 ∉ panicPrefix ++ text.take 152 := by
    rw [List.mem_append, not_or]
    exact ⟨by decide, fun hmem => hnonzero (List.mem_of_mem_take hmem)⟩
  refine ⟨text, htext, ⟨_, hcode, hlength, cString_of_drop rfl hbody⟩, ?_⟩
  have hsize : (panicPrefix ++ text.take 152).length = min text.length 152 + 7 := by
    rw [List.length_append, List.length_take, Nat.min_comm, Nat.add_comm]
    rfl
  have hne : panicPrefix ++ text.take 152 ≠ [] := List.append_ne_nil_of_left_ne_nil (by decide) _
  obtain ⟨buf', hend, hlength', rest', hmessage⟩ := endLine_spec hne (by omega) hlength
  obtain ⟨console', pos, hshown, -, -⟩ := consoleVprintf_returns hconsole (cpos 23 0) 0xC000
    (show 0 ∉ [ch '%', ch 's'] by decide) (fun _ => ⟨0, cString buf' 0, not_mem_cString buf' 0⟩)
  rw [List.cons_append, List.singleton_append] at hshown
  have hmemcpy : memcpy (panicPrefix ++ [0]) buf 0 0 7 = .ok (overwrite buf 0 panicPrefix) :=
    memcpy_eq (panicPrefix ++ [0]) (by decide) (by rw [hbuf]; decide)
  have hlen : toInt ((min text.length 152 : Nat) + 7) = (panicPrefix ++ text.take 152).length := by
    rw [hsize, toInt_of_mem (by omega) (by omega)]
    rfl
  refine ⟨buf', console', ?_, hlength', cString_of_drop hmessage (not_mem_panicMessage hnonzero),
    length_panicMessage text⟩
  rw [kernelPanic, hmemcpy, ok_bind, hcode, ok_bind]
  simp only [hlen]
  rw [hend, ok_bind, hshown]
  rfl

/-- A message that fills the buffer. The newline takes the place of its last character. -/
theorem kernel_panic_message_full : ∃ buf' console',
    kernelPanic (List.replicate 160 0) (List.replicate 2000 0) (List.replicate 200 (ch 'x') ++ [0])
      (fun _ => ⟨0, [], List.not_mem_nil⟩) = .ok (buf', console') ∧ buf'.length = 160 ∧
      cString buf' 0 = panicPrefix ++ List.replicate 151 (ch 'x') ++ [newline] := by
  have hchars : 0 ∉ List.replicate 200 (ch 'x') := by decide
  obtain ⟨text, htext, -, buf', console', hcode, hlength, hmessage, -⟩ := kernel_panic_message
    (List.length_replicate : (List.replicate 160 (0 : UInt8)).length = 160)
    (List.length_replicate : (List.replicate 2000 (0 : UInt16)).length = 2000)
    hchars (fun _ => ⟨0, [], List.not_mem_nil⟩)
  rw [formatted_plain hchars (by decide)] at htext
  obtain rfl := Except.ok.inj htext
  have hfull : panicMessage (List.replicate 200 (ch 'x')) =
      panicPrefix ++ List.replicate 151 (ch 'x') ++ [newline] := by decide +kernel
  exact ⟨buf', console', hcode, hlength, hmessage.trans hfull⟩

end MemoryManagement.Shared
